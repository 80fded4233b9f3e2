import SpriteCompiler.Diagnostic.Basic

namespace SpriteCompiler

inductive LabelStyle where
  | primary
  | secondary
  deriving DecidableEq

structure Label where
  style : LabelStyle
  loc : Location
  message : String
  deriving DecidableEq

-- The place of the problem, and the earlier declaration it is in conflict with.
def Diagnostic.labels (d : Diagnostic) : List Label :=
  ⟨.primary, d.loc, ""⟩ ::
    (d.previous.map fun loc => (⟨.secondary, loc, "first declared here"⟩ : Label)).toList

def Diagnostic.notes (d : Diagnostic) : List String :=
  d.suggestions.map fun name => "did you mean '" ++ name ++ "'?"

end SpriteCompiler
