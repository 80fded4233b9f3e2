import SpriteCompiler.Lowering.Stmt
import SpriteCompiler.Block.Script

namespace SpriteCompiler

-- A step of compiling that has no scopes.
abbrev Reporting := ExceptT Fault (StateM Report)

namespace Reporting

def debug (text : String) : Reporting Unit :=
  modify (·.addLog .debug text)

def report (d : Diagnostic) : Reporting Unit :=
  modify (·.addDiagnostic d)

-- Runs a step with scopes of its own.
def withScopes (scopes : ScopeTree) (step : Lower α) : Reporting α :=
  fun r =>
    let (result, s) := step { scopes, report := r }
    (result, s.report)

end Reporting

-- The statements of a method in its root scope, whose locals are released at the end.
def Lower.body (options : Options) (ctx : Context) (root : Nat) (statements : List Stmt) :
    Lower (List Block) := do
  let blocks ← stmts options (ctx.withScope root) statements
  return blocks ++ (← cleanup options root)

-- Compiles a method. The context says in which project and sprite, and its scope does not matter.
def lowerMethod (options : Options) (ctx : Context) (m : Method) : Reporting Procedure := do
  Reporting.debug ("lowering method `" ++ m.name ++ "`")
  let (root, scopes) := ScopeTree.createRoot { method := some m }
  let body ← Reporting.withScopes scopes (Lower.body options ctx root m.body)
  return {
    name := m.name
    spec := m.spec
    params := m.params.map (·.name)
    defaults := m.params.map (·.type.default)
    atomic := m.atomic
    body }

-- What a global needs to be stored.
inductive Storage where
  | variable (v : StoredVariable)
  | list (l : StoredList)
  deriving DecidableEq

-- The storage of a global, and its initial values that do not fit its type. A constant needs none.
-- A value that does not fit is stored all the same.
def Global.storage? (g : Global) : Option Storage :=
  match g with
  | .constant _ => none
  | .variable d => some (.variable ⟨d.name, d.value.getD d.type.default⟩)
  | .list d => some (.list ⟨d.name, d.items⟩)

def Global.problems (g : Global) : List Diagnostic :=
  match g with
  | .constant d => Diagnostic.ofTypes d.type d.value.type d.loc
  | .variable d => d.value.elim [] fun value => Diagnostic.ofTypes d.type value.type d.loc
  | .list d => d.items.flatMap fun item => Diagnostic.ofTypes d.type item.type d.loc

end SpriteCompiler
