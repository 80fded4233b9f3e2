import SpriteCompiler.Scope.Tree

namespace SpriteCompiler

structure Context where
  project : Project
  sprite : Option Sprite := none
  -- the innermost scope, inside a method
  scope : Option Nat := none

namespace Context

def withProject (ctx : Context) (project : Project) : Context :=
  { ctx with project }

def withSprite (ctx : Context) (sprite : Sprite) : Context :=
  { ctx with sprite := some sprite }

def withScope (ctx : Context) (scope : Nat) : Context :=
  { ctx with scope := some scope }

-- What a name that is no local stands for: a parameter of the method, something of the sprite, or
-- something of the project.
def outer? (ctx : Context) (m : Option Method) (name : String) : Option Binding :=
  ((m.bind fun m => m.param? name).map .parameter).or
    ((ctx.sprite.bind fun s => s.find? name).or (ctx.project.find? name))

-- The names that stand for something and are no locals, in the order they are searched.
def outerNames (ctx : Context) (m : Option Method) : List String :=
  (m.elim [] fun m => m.params.map (·.name)) ++ (ctx.sprite.elim [] Sprite.names) ++
    ctx.project.names

-- What a name stands for: a local, innermost first, or else something that is no local.
def resolve (ctx : Context) (scopes : ScopeTree) (name : String) :
    Except MissingScope (Option Binding) := do
  let found ← match ctx.scope with
    | none => pure none
    | some id => scopes.search id name
  return (found.map Local.binding).or (ctx.outer? scopes.method name)

-- All names that stand for something, in the order they are searched.
def visibleNames (ctx : Context) (scopes : ScopeTree) : Except MissingScope (List String) := do
  let locals ← match ctx.scope with
    | none => pure []
    | some id => scopes.visibleNames id
  return locals ++ ctx.outerNames scopes.method

end Context

end SpriteCompiler
