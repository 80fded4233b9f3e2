import SpriteCompiler.Proofs.Meaning.Interpretation
import SpriteCompiler.Proofs.Meaning.Outcome
import SpriteCompiler.Proofs.Number.Exact
import SpriteCompiler.Proofs.Scope.Frames
import Mathlib.Logic.Function.Basic

namespace SpriteCompiler

-- What changes while a method runs.
structure Store (V : Type) where
  globals : String → V
  frames : Frames V

namespace Store

variable {V : Type} (s : Store V)

def setVariable (x : String) (v : V) : Store V :=
  { s with globals := Function.update s.globals x v }

def declare (l : Local) (vs : List V) : Store V :=
  match s.frames with
  | [] => s
  | f :: outer => { s with frames := (f ++ [(l, vs)]) :: outer }

-- A body in a scope of its own, whose locals are gone at its end.
def inScope (body : Store V → Outcome (Store V)) : Outcome (Store V) :=
  (body { s with frames := [] :: s.frames }).bind fun s => .next { s with frames := s.frames.tail }

end Store

-- What does not change while a method runs.
structure Activation (V : Type) where
  interp : Interpretation V
  -- what a name stands for that is no local
  names : String → Option Binding
  -- the variable for the method's result
  result : String
  arguments : String → V
  lists : String → List V
  -- what is read if an index designates no item of a local array. This can be anything, and it can
  -- depend on everything, even on the slots of a declaration that were filled before.
  stray : Store V → List V → String → V → V

-- What the slots of a local are filled with, one after the other.
def Local.contents : Local → List Expr
  | .variable v => List.replicate v.slots.toNat (v.value.getD (.literal v.type.default v.loc))
  | .array a => a.items

-- How often the body of an inline loop is run.
def Expr.repetitions (count : Expr) : Nat :=
  match count.literal? with
  | some (.number x) => Number.whole x
  | _ => 0

namespace Activation

variable {V : Type} (A : Activation V)

section Values

-- The slots `begun` of a declaration are filled, and the local is not yet declared.
variable (s : Store V) (begun : List V)

-- A name that stands for no value is reported when it is compiled.
def lookup (x : String) : V :=
  match s.frames.find? x with
  | some (.variable _, [v]) => v
  | some _ => A.interp.missing
  | none =>
    match A.names x with
    | some (.constant c) => A.interp.literal c.value
    | some (.globalVariable v) => s.globals v.name
    | some (.globalList l) => A.interp.contents (A.lists l.name)
    | some (.parameter p) => A.arguments p.name
    | _ => A.interp.missing

def item (x : String) (i : V) : V :=
  match s.frames.find? x with
  | some (.array _, vs) => (A.interp.element? i vs).getD (A.stray s begun x i)
  | some _ => A.interp.missing
  | none =>
    match A.names x with
    | some (.globalList l) => A.interp.item i (A.lists l.name)
    | _ => A.interp.missing

def value : Expr → V
  | .literal value _ => A.interp.literal value
  | .lookup x _ => A.lookup s x
  | .item x index _ => A.item s begun x (value index)
  | .unary op operand _ => A.interp.unary op (value operand)
  | .binary op left right _ => A.interp.binary op (value left) (value right)

def holds (e : Expr) : Bool :=
  A.interp.truth (A.value s [] e)

-- The slots of a declaration: those filled before, and then one for each expression.
def fill : List V → List Expr → List V
  | begun, [] => begun
  | begun, e :: rest => fill (begun ++ [A.value s begun e]) rest

end Values

-- The new value of a target. Subtracting is adding the negated value.
def assigned (s : Store V) (current : V) : Assignment → V
  | .set e => A.value s [] e
  | .add e => A.interp.binary .add current (A.value s [] e)
  | .subtract e => A.interp.binary .add current (A.interp.unary .minus (A.value s [] e))
  | .join e => A.interp.binary .concat current (A.value s [] e)
  | .increment => A.interp.binary .add current (A.interp.literal (.number 1.0))
  | .decrement => A.interp.binary .add current (A.interp.literal (.number (-1.0)))

def assign (x : String) (a : Assignment) (s : Store V) : Store V :=
  match s.frames.find? x with
  | some (.variable _, [v]) => { s with frames := s.frames.update x [A.assigned s v a] }
  | some _ => s
  | none =>
    match A.names x with
    | some (.globalVariable v) => s.setVariable v.name (A.assigned s (s.globals v.name) a)
    | _ => s

def storeResult (value : Option Expr) (s : Store V) : Store V :=
  match value with
  | some e => s.setVariable A.result (A.value s [] e)
  | none => s

-- Runs a statement, where a loop without a count is run for `n` rounds at most.

variable (n : Nat)

mutual

def run : Stmt → Store V → Outcome (Store V)
  | .declare l, s => .next (s.declare l (A.fill s [] l.contents))
  | .assign x a _, s => .next (A.assign x a s)
  | .repeatLoop inline count body _, s =>
    let rounds := if inline then count.repetitions else A.interp.count (A.value s [] count)
    Outcome.times (fun s => s.inScope fun s => runAll body s) rounds s
  | .whileLoop condition body _, s =>
    Outcome.loop (fun s => some (A.holds s condition)) (fun s => s.inScope fun s => runAll body s) n s
  | .forever body _, s =>
    Outcome.loop (fun _ => some true) (fun s => s.inScope fun s => runAll body s) n s
  | .branch condition thenBody elseBody _, s =>
    if A.holds s condition then s.inScope fun s => runAll thenBody s
    else s.inScope fun s => runAll elseBody s
  | .switch _ cases _, s => runCases cases s
  | .ret value _, s => .done (A.storeResult value s)
  | .scope body _, s => s.inScope fun s => runAll body s

def runAll : List Stmt → Store V → Outcome (Store V)
  | [], s => .next s
  | st :: rest, s => (run st s).bind fun s => runAll rest s

-- The first case all of whose conditions hold, or else a default at the end.
def runCases : List Case → Store V → Outcome (Store V)
  | [], s => .next s
  | .mk conditions body isDefault _ :: rest, s =>
    if rest.isEmpty && isDefault || conditions.all (A.holds s) then s.inScope fun s => runAll body s
    else runCases rest s

end

-- A method starts without locals.
def runMethod (m : Method) (globals : String → V) : Outcome (Store V) :=
  Store.inScope ⟨globals, []⟩ fun s => A.runAll n m.body s

end Activation

theorem Local.length_contents (l : Local) : l.contents.length = l.slots := by
  cases l <;> simp [contents, slots]

theorem Activation.length_fill {V : Type} (A : Activation V) (s : Store V) (begun : List V)
    (es : List Expr) : (A.fill s begun es).length = begun.length + es.length := by
  induction es generalizing begun with
  | nil => rfl
  | cons e rest ih =>
      simp only [fill, ih, List.length_append, List.length_cons, List.length_nil]
      omega

end SpriteCompiler
