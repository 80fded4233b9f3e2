import SpriteCompiler.Scope.Context
import SpriteCompiler.Options
import SpriteCompiler.Diagnostic.Basic
import SpriteCompiler.Diagnostic.Suggestion
import SpriteCompiler.Stack.Release

namespace SpriteCompiler

inductive LogLevel where
  | debug
  | trace
  deriving DecidableEq

structure LogEntry where
  level : LogLevel
  text : String
  deriving DecidableEq

def LogEntry.line (e : LogEntry) : String :=
  match e.level with
  | .debug => "debug: " ++ e.text
  | .trace => "trace: " ++ e.text

-- What compiling says besides its result, each in the order it was said.
structure Report where
  diagnostics : List Diagnostic := []
  log : List LogEntry := []
  deriving DecidableEq

namespace Report

def addLog (r : Report) (level : LogLevel) (text : String) : Report :=
  { r with log := r.log ++ [⟨level, text⟩] }

def addDiagnostic (r : Report) (d : Diagnostic) : Report :=
  { r with diagnostics := r.diagnostics ++ [d] }

def append (r other : Report) : Report :=
  ⟨r.diagnostics ++ other.diagnostics, r.log ++ other.log⟩

end Report

-- A mistake of the compiler itself, or of what it was asked to do. Problems of the program are reported
-- instead and never stop the work.
inductive Fault where
  -- a statement was compiled where there is no scope, or no method to return from
  | outsideMethod
  -- the tree was asked for a scope that it does not have
  | noSuchScope (id : Nat)
  -- a name was found to be a local, but has no slot
  | noStackSlot (name : String)
  -- an operator that does not step was asked for its step
  | noStep (op : AssignOp)
  deriving DecidableEq

def Fault.message : Fault → String
  | .outsideMethod => "statement lowered without an enclosing method scope"
  | .noSuchScope id => "scope " ++ Number.natText id ++ " does not exist"
  | .noStackSlot name => "stack local `" ++ name ++ "` resolved but has no stack slot"
  | .noStep op => "`" ++ op.symbol ++ "` has no step amount"

structure Session where
  scopes : ScopeTree
  report : Report := {}
  -- slots that the declaration being compiled has pushed
  pendingSlots : Nat := 0
  -- an expression is being compiled again, and its problems are known
  muted : Bool := false

-- A step of compiling. The state outlives a fault.
abbrev Lower := ExceptT Fault (StateM Session)

namespace Lower

def trace (text : String) : Lower Unit :=
  modify fun s => { s with report := s.report.addLog .trace text }

-- Reports a problem, unless it is known.
def report (d : Diagnostic) : Lower Unit :=
  modify fun s =>
    if s.muted then s
    else { s with report := (s.report.addLog .trace (d.kind.code ++ ": " ++ d.message)).addDiagnostic d }

-- Asks the scopes. A scope that is missing is a fault.
def ask (question : ScopeTree → Except MissingScope α) : Lower α := do
  match question (← get).scopes with
  | .ok answer => pure answer
  | .error missing => throw (.noSuchScope missing.id)

-- Reports a name that stands for nothing, with the names that could have been meant.
def reportNotDefined (ctx : Context) (name : String) (loc : Location) : Lower Unit := do
  let names ← ask ctx.visibleNames
  report (.notDefined name loc (suggest name names))

def resolve? (ctx : Context) (name : String) : Lower (Option Binding) :=
  ask (ctx.resolve · name)

-- The innermost scope of the context.
def currentScope (ctx : Context) : Lower Nat := do
  match ctx.scope with
  | none => throw .outsideMethod
  | some id => if id < (← get).scopes.size then pure id else throw (.noSuchScope id)

-- The number of slots between the end of the stack and the last slot of a local, those of an
-- unfinished declaration included.
def stackDepth (ctx : Context) (name : String) : Lower Nat := do
  let id ← currentScope ctx
  match ← ask (·.depth id name) with
  | some depth => return depth + (← get).pendingSlots
  | none => throw (.noStackSlot name)

-- Notes that slots are released, if there are any.
def traceRelease (locals : List Local) : Lower Unit :=
  if locals.any (0 < ·.slots) then
    trace ("releasing " ++ Number.natText (Local.slotCount locals) ++ " stack slots")
  else pure ()

-- The blocks that release the locals of a scope.
def cleanup (options : Options) (id : Nat) : Lower (List Block) := do
  let scope ← ask (·.scope id)
  traceRelease scope.locals
  ask (·.cleanup options.stackList id)

-- The blocks that release the locals of a scope and of all its ancestors.
def unwind (options : Options) (id : Nat) : Lower (List Block) := do
  let scopes ← ask (·.outward id)
  scopes.forM fun (_, scope) => traceRelease scope.locals
  ask (·.unwind options.stackList id)

-- Runs `body` in a new scope inside the current one and releases its locals.
def nested (options : Options) (ctx : Context) (body : Context → Lower (List Block)) :
    Lower (List Block) := do
  let parent ← currentScope ctx
  let (child, scopes) ← ask (·.createChild parent)
  modify fun s => { s with scopes }
  let blocks ← body (ctx.withScope child)
  return blocks ++ (← cleanup options child)

end Lower

end SpriteCompiler
