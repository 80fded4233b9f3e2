import SpriteCompiler.Lowering.Stmt
import SpriteCompiler.Proofs.Scope.Frames

namespace SpriteCompiler

-- A place where a local is named: the scopes there, and how many slots of a declaration that is not
-- finished lie on top of theirs.
structure Site where
  scopes : ScopeTree
  scope : Nat
  name : String
  pending : Nat

namespace Site

-- The local that is found for the name.
def Finds (s : Site) (l : Local) : Prop :=
  s.scopes.search s.scope s.name = .ok (some l)

def owner? (s : Site) : Option Nat :=
  s.scopes.owner? s.scope s.name

-- The number of slots between the end of the stack and the last slot of the local.
def depth (s : Site) : Nat :=
  (s.scopes.depth? s.scope s.name).getD 0 + s.pending

end Site

-- Code is kept one step before it is written as blocks, since blocks no longer say which local a stack
-- item belongs to.

-- What a parameter reports.
inductive Operand where
  | literal (value : Literal)
  | empty
  | global (name : String)
  | contents (list : String)
  | param (name kind : String)
  -- a local variable
  | cell (site : Site)
  | item (list : String) (index : Operand)
  -- an item of a local array
  | element (site : Site) (size : Nat) (index : Operand)
  | unary (op : UnaryOp) (operand : Operand) (loc : Location)
  | binary (op : BinaryOp) (left right : Operand) (loc : Location)

namespace Operand

def emit (o : Options) : Operand → Param
  | .literal value => .literal value
  | .empty => .empty
  | .global name => .block (.mk .readVariable [.text name])
  | .contents list => .block (.mk .contentsOfList [.text list])
  | .param name kind => .block (.mk .getParam [.text name, .text kind])
  | .cell site => Stack.read o.stackList (Stack.slotIndex o.stackList site.depth)
  | .item list index => .block (.mk .itemOfList [index.emit o, .text list])
  | .element site size index =>
    Stack.read o.stackList (Stack.itemIndex o.stackList site.depth size (index.emit o))
  | .unary op operand loc => op.apply o (operand.emit o) loc
  | .binary op left right loc => op.apply o (left.emit o) (right.emit o) loc

-- All conditions together, joined from the right.
def conjunction (loc : Location) : List Operand → Operand
  | [] => .literal (.boolean true)
  | [p] => p
  | p :: rest => .binary .and p (conjunction loc rest) loc

theorem emit_conjunction (o : Options) (loc : Location) (ps : List Operand) :
    (conjunction loc ps).emit o = Lower.conjunction o loc (ps.map (emit o)) := by
  induction ps with
  | nil => rfl
  | cons p ps ih =>
      cases ps with
      | nil => rfl
      | cons q ps =>
          simp only [conjunction, emit, List.map_cons, Lower.conjunction] at ih ⊢
          rw [ih]

end Operand

inductive Command where
  -- pushes one slot
  | push (slot : ScopeTree.Slot) (value : Operand)
  -- deletes this many slots
  | release (slots : Nat)
  | store (site : Site) (value : Operand)
  | setVariable (name : String) (value : Operand)
  | changeVariable (name : String) (amount : Operand)
  -- a body that stands in place
  | scope (body : List Command)
  | repeatTimes (count : Operand) (body : List Command)
  | repeatUntil (condition : Operand) (body : List Command)
  | forever (body : List Command)
  | ifThen (condition : Operand) (body : List Command)
  | ifThenElse (condition : Operand) (body other : List Command)
  | stop

namespace Command

mutual

def emit (o : Options) : Command → List Block
  | .push _ value => [Stack.push o.stackList (value.emit o)]
  | .release slots => [Stack.release o.stackList slots]
  | .store site value =>
    [Stack.write o.stackList (Stack.slotIndex o.stackList site.depth) (value.emit o)]
  | .setVariable name value => [.mk .setVariable [.text name, value.emit o]]
  | .changeVariable name amount => [.mk .changeVariable [.text name, amount.emit o]]
  | .scope body => emitAll o body
  | .repeatTimes count body => [.mk .repeatTimes [count.emit o, .body (emitAll o body)]]
  | .repeatUntil condition body => [.mk .repeatUntil [condition.emit o, .body (emitAll o body)]]
  | .forever body => [.mk .forever [.body (emitAll o body)]]
  | .ifThen condition body => [.mk .ifThen [condition.emit o, .body (emitAll o body)]]
  | .ifThenElse condition body other =>
    [.mk .ifThenElse [condition.emit o, .body (emitAll o body), .body (emitAll o other)]]
  | .stop => [.mk .stop [.text "this script"]]

def emitAll (o : Options) : List Command → List Block
  | [] => []
  | c :: rest => c.emit o ++ emitAll o rest

end

@[simp]
theorem emitAll_append (o : Options) (a b : List Command) :
    emitAll o (a ++ b) = emitAll o a ++ emitAll o b := by
  induction a with
  | nil => rfl
  | cons c a ih => simp only [List.cons_append, emitAll, ih, List.append_assoc]

theorem emitAll_flatMap {α : Type} (o : Options) (f : α → List Command) (xs : List α) :
    emitAll o (xs.flatMap f) = xs.flatMap fun x => emitAll o (f x) := by
  induction xs with
  | nil => rfl
  | cons x xs ih => simp only [List.flatMap_cons, emitAll_append, ih]

-- Copies of a body in place are copies of its blocks.
theorem emitAll_replicate (o : Options) (n : Nat) (body : List Command) :
    emitAll o (List.replicate n (.scope body)) = (List.replicate n (emitAll o body)).flatten := by
  induction n with
  | zero => rfl
  | succ n ih => simp only [List.replicate_succ, emitAll, emit, ih, List.flatten_cons]

end Command

namespace ScopeTree

-- Releases the locals of a scope, the latest first. One without slots needs nothing.
def releases (t : ScopeTree) (i : Nat) : List Command :=
  ((t.locals i).reverse.filter (0 < ·.slots)).map fun l => .release l.slots

theorem emitAll_releases (o : Options) (t : ScopeTree) (i : Nat) :
    Command.emitAll o (t.releases i) = Stack.releaseAll o.stackList (t.locals i) := by
  rw [releases, Stack.releaseAll]
  induction (t.locals i).reverse.filter (0 < ·.slots) with
  | nil => rfl
  | cons l ls ih => simp only [List.map_cons, Command.emitAll, Command.emit, ih, List.singleton_append]

end ScopeTree

end SpriteCompiler
