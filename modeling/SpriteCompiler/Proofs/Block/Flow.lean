import SpriteCompiler.Stack.Access
import SpriteCompiler.Stack.Release
import SpriteCompiler.Block.Operation
import SpriteCompiler.Proofs.Flow.Path
import SpriteCompiler.Proofs.Number.Exact

namespace SpriteCompiler

-- What a block does to the stack, a list that is known by its name.
inductive Move where
  | append
  -- the last item is deleted
  | delete
  -- another item is deleted
  | remove (index : Param)
  -- an item is read or replaced
  | access (index : Param)

-- What is counted of a stack, which grows and shrinks at its end.
def Move.change : Move → Int
  | .append => 1
  | .delete => -1
  | .remove _ => 0
  | .access _ => 0

def Move.height (E : List Move) : Int :=
  (E.map change).sum

-- A deletion at an index. The last item is the one that is called so.
def Move.deletion : Param → Move
  | .literal (.text "last") => .delete
  | index => .remove index

namespace Block

-- The index at which a block reads an item of the list, if that is what it does.
def readIndex (list : String) : Opcode → List Param → List Param
  | .itemOfList, [index, .literal (.text l)] => if l = list then [index] else []
  | _, _ => []

-- What a block without bodies does after its parameters are evaluated.
def moves (list : String) : Opcode → List Param → List Move
  | .appendToList, [_, .literal (.text l)] => if l = list then [.append] else []
  | .deleteOfList, [index, .literal (.text l)] => if l = list then [.deletion index] else []
  | .replaceItemOfList, [index, .literal (.text l), _] => if l = list then [.access index] else []
  | _, _ => []

end Block

mutual

-- The indexes of the items that are read where a parameter is evaluated, in order.
def Param.reads (list : String) : Param → List Param
  | .block b => b.reads list
  | _ => []

def Block.reads (list : String) : Block → List Param
  | .mk op params => Param.allReads list params ++ Block.readIndex list op params

def Param.allReads (list : String) : List Param → List Param
  | [] => []
  | p :: rest => p.reads list ++ Param.allReads list rest

end

-- How often a loop runs that deletes and does nothing else.
def Stack.releaseCount? (list : String) : Param → List Block → Option Nat
  | .literal (.number x), [.mk .deleteOfList [.literal (.text "last"), .literal (.text l)]] =>
    if l = list then Number.natural? x else none
  | _, _ => none

mutual

-- How often a loop runs is left open, unless it only deletes and has its count written down.
def Block.flow (list : String) : Block → List (Flow Move)
  | .mk .repeatTimes [count, .body body] =>
    Flow.acts ((count.reads list).map .access) ++
      [.loop (Stack.releaseCount? list count body) [] (Block.flowAll list body)]
  | .mk .repeatUntil [condition, .body body] =>
    [.loop none ((condition.reads list).map .access) (Block.flowAll list body)]
  | .mk .forever [.body body] => [.loop none [] (Block.flowAll list body)]
  | .mk .ifThen [condition, .body body] =>
    Flow.acts ((condition.reads list).map .access) ++ [.branch (Block.flowAll list body) []]
  | .mk .ifThenElse [condition, .body body, .body other] =>
    Flow.acts ((condition.reads list).map .access) ++
      [.branch (Block.flowAll list body) (Block.flowAll list other)]
  | .mk .stop _ => [.stop]
  | .mk op params =>
    Flow.acts ((Param.allReads list params).map .access ++ Block.moves list op params)

def Block.flowAll (list : String) : List Block → List (Flow Move)
  | [] => []
  | b :: rest => b.flow list ++ Block.flowAll list rest

end

theorem Block.flowAll_append (list : String) (a b : List Block) :
    Block.flowAll list (a ++ b) = Block.flowAll list a ++ Block.flowAll list b := by
  induction a with
  | nil => rfl
  | cons x a ih => simp only [List.cons_append, Block.flowAll, ih, List.append_assoc]

-- Operators read what their operands read. Where one is applied at compile time, the operands are
-- literals and read nothing.

theorem Param.reads_eq_nil_of_literal? {list : String} {p : Param} {value : Literal}
    (h : p.literal? = some value) : p.reads list = [] := by
  cases p <;> simp_all [Param.literal?, Param.reads]

theorem UnaryOp.reads_apply (op : UnaryOp) (o : Options) (list : String) (p : Param)
    (loc : Location) : (op.apply o p loc).reads list = p.reads list := by
  rw [UnaryOp.apply]
  cases hfold : op.foldParam? o p loc with
  | none =>
      cases op <;>
        simp [UnaryOp.block, Param.reads, Block.reads, Block.make, Param.allReads,
          Block.readIndex, Param.number]
  | some q =>
      simp only [UnaryOp.foldParam?, Option.ite_none_right_eq_some, Option.bind_eq_some_iff,
        Option.map_eq_some_iff] at hfold
      obtain ⟨_, _, hp, _, _, rfl⟩ := hfold
      rw [Param.reads_eq_nil_of_literal? hp]
      rfl

theorem BinaryOp.reads_block (op : BinaryOp) (list : String) (p q : Param) :
    (op.block p q).reads list = p.reads list ++ q.reads list := by
  cases op <;>
    simp [BinaryOp.block, BinaryOp.isOpposite, BinaryOp.opcode, Param.reads, Block.reads,
      Block.make, Param.allReads, Block.readIndex]

theorem BinaryOp.reads_apply (op : BinaryOp) (o : Options) (list : String) (p q : Param)
    (loc : Location) : (op.apply o p q loc).reads list = p.reads list ++ q.reads list := by
  rw [BinaryOp.apply]
  cases hfold : op.foldParams? o p q loc with
  | none => exact op.reads_block list p q
  | some r =>
      simp only [BinaryOp.foldParams?, Option.ite_none_right_eq_some, Option.bind_eq_some_iff,
        Option.map_eq_some_iff] at hfold
      obtain ⟨_, _, hp, _, hq, _, _, rfl⟩ := hfold
      rw [Param.reads_eq_nil_of_literal? hp, Param.reads_eq_nil_of_literal? hq]
      rfl

namespace Stack

-- The number of items but the last few, where an index says so.
def behindEnd? (list : String) (length : Nat) : Param → Option Nat
  | .block (.mk .subtract [.block (.mk .lengthOfList [.literal (.text l)]), .literal (.number x)]) =>
    if l = list then
      (Number.natural? x).bind fun d => if d ≤ length then some (length - d) else none
    else none
  | _ => none

-- The position that an index designates in a list of this length, counted from one, where `value` is
-- what parameters evaluate to.
def position? (list : String) (length : Nat) (value : Param → Option Nat) : Param → Option Nat
  | .literal (.text "last") => some length
  | .block (.mk .add [start, operand]) =>
    (behindEnd? list length start).bind fun n => (value operand).map (n + ·)
  | index => behindEnd? list length index

variable {list : String} {length depth size i : Nat} {value : Param → Option Nat}

theorem behindEnd?_ofNat (list : String) (hfit : depth < 2 ^ 32) (hle : depth ≤ length) :
    behindEnd? list length
      (.block (.make .subtract [Stack.length list, .number (Float.ofNat depth)])) =
      some (length - depth) := by
  simp [behindEnd?, Block.make, Stack.length, Param.text, Param.number, Number.natural?_ofNat hfit,
    hle]

-- The index of a slot designates the item with as many others after it as its depth says.
theorem position?_slotIndex (hfit : depth < 2 ^ 32) (hle : depth ≤ length) :
    position? list length value (slotIndex list depth) = some (length - depth) := by
  unfold slotIndex
  split
  · next h => simp [position?, Param.text, h]
  · exact behindEnd?_ofNat list hfit hle

theorem position?_itemIndex {operand : Param} (hfit : depth + size < 2 ^ 32)
    (hle : depth + size ≤ length) (hi : value operand = some i) :
    position? list length value (itemIndex list depth size operand) =
      some (length - (depth + size) + i) := by
  have hstart := behindEnd?_ofNat list hfit hle
  simp only [itemIndex, position?, Block.make] at hstart ⊢
  rw [hstart, Option.bind_some, hi, Option.map_some]

theorem reads_slotIndex (list : String) (depth : Nat) : (slotIndex list depth).reads list = [] := by
  unfold slotIndex
  split
  · rfl
  · simp [Param.reads, Block.reads, Block.make, Param.allReads, Block.readIndex, Stack.length,
      Param.text, Param.number]

theorem reads_itemIndex (list : String) (depth size : Nat) (index : Param) :
    (itemIndex list depth size index).reads list = index.reads list := by
  simp [itemIndex, Param.reads, Block.reads, Block.make, Param.allReads, Block.readIndex,
    Stack.length, Param.text, Param.number]

theorem reads_read (list : String) (index : Param) :
    (read list index).reads list = index.reads list ++ [index] := by
  simp [read, Param.reads, Block.reads, Block.make, Param.allReads, Block.readIndex, Param.text]

end Stack

end SpriteCompiler
