import SpriteCompiler.Block.Operation
import SpriteCompiler.Stack.Access
import SpriteCompiler.Stack.Release
import SpriteCompiler.Proofs.Meaning.Interpretation
import SpriteCompiler.Proofs.Meaning.Outcome
import Mathlib.Data.List.Induction
import Mathlib.Logic.Function.Basic

namespace SpriteCompiler

structure Memory (V : Type) where
  globals : String → V
  lists : String → List V

namespace Memory

variable {V : Type} (w : Memory V)

def setVariable (x : String) (v : V) : Memory V :=
  { w with globals := Function.update w.globals x v }

def setList (l : String) (xs : List V) : Memory V :=
  { w with lists := Function.update w.lists l xs }

@[simp]
theorem lists_setList (l : String) (xs : List V) : (w.setList l xs).lists l = xs := by
  simp [setList]

theorem lists_setList_of_ne {l l' : String} (h : l' ≠ l) (xs : List V) :
    (w.setList l xs).lists l' = w.lists l' := by
  simp [setList, h]

@[simp]
theorem setList_setList (l : String) (xs ys : List V) :
    (w.setList l xs).setList l ys = w.setList l ys := by
  simp [setList]

theorem setList_self (l : String) : w.setList l (w.lists l) = w := by
  simp [setList]

end Memory

-- The operator that an instruction with two operands stands for.
def Opcode.operator? : Opcode → Option BinaryOp
  | .add => some .add
  | .subtract => some .subtract
  | .multiply => some .multiply
  | .divide => some .divide
  | .modulo => some .modulo
  | .concat => some .concat
  | .equal => some .equal
  | .lessThan => some .less
  | .greaterThan => some .greater
  | .and => some .and
  | .or => some .or
  | _ => none

section Machine

variable {V : Type} (I : Interpretation V) (arguments : String → V)

mutual

def Param.value (w : Memory V) : Param → Option V
  | .literal value => some (I.literal value)
  | .block b => b.value w
  | .body _ => none
  | .empty => none

def Block.value (w : Memory V) : Block → Option V
  | .mk .readVariable [.literal (.text x)] => some (w.globals x)
  | .mk .getParam [.literal (.text x), _] => some (arguments x)
  | .mk .itemOfList [index, .literal (.text l)] =>
    (index.value w).map fun i => I.item i (w.lists l)
  | .mk .lengthOfList [.literal (.text l)] => some (I.length (w.lists l).length)
  | .mk .contentsOfList [.literal (.text l)] => some (I.contents (w.lists l))
  | .mk .not [operand] => (operand.value w).map (I.unary .not)
  | .mk opcode [left, right] =>
    opcode.operator?.bind fun op =>
      (left.value w).bind fun x => (right.value w).map fun y => I.binary op x y
  | _ => none

end

open Outcome (given)

-- Runs a block, where a loop without a count is run for `n` rounds at most.

variable (n : Nat)

mutual

def Block.run : Block → Memory V → Outcome (Memory V)
  | .mk .setVariable [.literal (.text x), p], w =>
    given (p.value I arguments w) fun v => .next (w.setVariable x v)
  | .mk .changeVariable [.literal (.text x), p], w =>
    given (p.value I arguments w) fun v => .next (w.setVariable x (I.binary .add (w.globals x) v))
  | .mk .appendToList [p, .literal (.text l)], w =>
    given (p.value I arguments w) fun v => .next (w.setList l (w.lists l ++ [v]))
  | .mk .deleteOfList [index, .literal (.text l)], w =>
    given (index.value I arguments w) fun i => .next (w.setList l (I.delete i (w.lists l)))
  | .mk .replaceItemOfList [index, .literal (.text l), p], w =>
    given (index.value I arguments w) fun i =>
      given (p.value I arguments w) fun v => .next (w.setList l (I.replace i v (w.lists l)))
  | .mk .repeatTimes [count, .body body], w =>
    given (count.value I arguments w) fun v =>
      Outcome.times (fun w => Block.runAll body w) (I.count v) w
  | .mk .repeatUntil [condition, .body body], w =>
    Outcome.loop (fun w => (condition.value I arguments w).map fun v => !I.truth v)
      (fun w => Block.runAll body w) n w
  | .mk .forever [.body body], w =>
    Outcome.loop (fun _ => some true) (fun w => Block.runAll body w) n w
  | .mk .ifThen [condition, .body body], w =>
    given (condition.value I arguments w) fun v =>
      if I.truth v then Block.runAll body w else .next w
  | .mk .ifThenElse [condition, .body body, .body other], w =>
    given (condition.value I arguments w) fun v =>
      if I.truth v then Block.runAll body w else Block.runAll other w
  | .mk .stop _, w => .done w
  | _, _ => .stuck

def Block.runAll : List Block → Memory V → Outcome (Memory V)
  | [], w => .next w
  | b :: rest, w => (b.run w).bind fun w => Block.runAll rest w

end

end Machine

section Machine

variable {V : Type} {I : Interpretation V} {arguments : String → V} {n : Nat} {w : Memory V}
  {p q : Param} {u v : V}

theorem Block.runAll_append (a b : List Block) (w : Memory V) :
    Block.runAll I arguments n (a ++ b) w =
      (Block.runAll I arguments n a w).bind fun w => Block.runAll I arguments n b w := by
  induction a generalizing w with
  | nil => rfl
  | cons x a ih => simp only [List.cons_append, Block.runAll, ih, Outcome.bind_assoc]

@[simp]
theorem Block.runAll_singleton (b : Block) (w : Memory V) :
    Block.runAll I arguments n [b] w = b.run I arguments n w := by
  simp only [Block.runAll, Outcome.bind_next]

theorem Param.value_not (hp : p.value I arguments w = some v) :
    (Param.block (.mk .not [p])).value I arguments w = some (I.unary .not v) := by
  have hvalue : (Param.block (.mk .not [p])).value I arguments w =
      (p.value I arguments w).map (I.unary .not) := rfl
  rw [hvalue, hp]
  rfl

theorem Param.value_binary_eq {opcode : Opcode} {op : BinaryOp} (h : opcode.operator? = some op)
    (p q : Param) : (Param.block (.mk opcode [p, q])).value I arguments w =
      (p.value I arguments w).bind fun x => (q.value I arguments w).map (I.binary op x) := by
  cases opcode <;> cases h <;> rfl

theorem Param.value_binary {opcode : Opcode} {op : BinaryOp} (h : opcode.operator? = some op)
    (hp : p.value I arguments w = some u) (hq : q.value I arguments w = some v) :
    (Param.block (.mk opcode [p, q])).value I arguments w = some (I.binary op u v) := by
  rw [Param.value_binary_eq h, hp, hq]
  rfl

-- An operator means the same whether it is applied to literals at compile time or by a block.

theorem Param.value_of_literal? {l : Literal} (h : p.literal? = some l) :
    p.value I arguments w = some (I.literal l) := by
  cases p with
  | literal l' =>
      obtain rfl : l' = l := by simpa [Param.literal?] using h
      rfl
  | _ => cases h

theorem fold_of_toOption {r : Except FoldError Literal} {l : Literal}
    (h : r.toOption = some l) : r = .ok l := by
  cases r with
  | ok l' => exact congrArg Except.ok (Option.some.inj h)
  | error e => cases h

theorem UnaryOp.value_apply (hI : I.Lawful) (op : UnaryOp) (o : Options) (loc : Location)
    (hp : p.value I arguments w = some v) :
    (op.apply o p loc).value I arguments w = some (I.unary op v) := by
  rw [UnaryOp.apply]
  cases hfold : op.foldParam? o p loc with
  | none =>
      cases op with
      | minus =>
          have hzero : (Param.number 0.0).value I arguments w = some (I.literal (.number 0.0)) := rfl
          have hminus : Opcode.subtract.operator? = some .subtract := rfl
          have hvalue := Param.value_binary hminus hzero hp
          rw [← hI.minus] at hvalue
          exact hvalue
      | not => exact Param.value_not hp
  | some r =>
      simp only [UnaryOp.foldParam?, Option.ite_none_right_eq_some, Option.bind_eq_some_iff,
        Option.map_eq_some_iff] at hfold
      obtain ⟨_, l, hl, l', hl', rfl⟩ := hfold
      obtain rfl : I.literal l = v := by
        rw [Param.value_of_literal? hl] at hp
        exact Option.some.inj hp
      rw [hI.fold_unary op l loc l' (fold_of_toOption hl')]
      rfl

theorem BinaryOp.value_block (hI : I.Lawful) (op : BinaryOp) (hp : p.value I arguments w = some u)
    (hq : q.value I arguments w = some v) :
    (op.block p q).value I arguments w = some (I.binary op u v) := by
  have hdirect {op' : BinaryOp} (hop : op.opcode.operator? = some op') :=
    Param.value_binary hop hp hq
  cases op with
  | notEqual =>
      rw [hI.notEqual]
      exact Param.value_not (hdirect rfl)
  | lessEqual =>
      rw [hI.lessEqual]
      exact Param.value_not (hdirect rfl)
  | greaterEqual =>
      rw [hI.greaterEqual]
      exact Param.value_not (hdirect rfl)
  | _ => exact hdirect rfl

theorem BinaryOp.value_apply (hI : I.Lawful) (op : BinaryOp) (o : Options) (loc : Location)
    (hp : p.value I arguments w = some u) (hq : q.value I arguments w = some v)
    (hagree : o.foldConstants → ∀ l r, p.literal? = some l → q.literal? = some r →
      I.Agrees op l r) :
    (op.apply o p q loc).value I arguments w = some (I.binary op u v) := by
  rw [BinaryOp.apply]
  cases hfold : op.foldParams? o p q loc with
  | none => exact op.value_block hI hp hq
  | some r =>
      simp only [BinaryOp.foldParams?, Option.ite_none_right_eq_some, Option.bind_eq_some_iff,
        Option.map_eq_some_iff] at hfold
      obtain ⟨hfolds, l, hl, r, hr, value, hvalue, rfl⟩ := hfold
      rw [Param.value_of_literal? hl] at hp
      rw [Param.value_of_literal? hr] at hq
      obtain rfl := Option.some.inj hp
      obtain rfl := Option.some.inj hq
      rw [hagree hfolds l r hl hr loc value (fold_of_toOption hvalue)]
      rfl

namespace Stack

variable {list : String} {depth : Nat}

theorem value_length : (length list).value I arguments w =
    some (I.length (w.lists list).length) := rfl

-- The number of items but the last few.
theorem value_behindEnd (size : Nat) :
    (Param.block (.make .subtract [length list, .number (Float.ofNat size)])).value I arguments w =
      some (I.behindEnd (w.lists list).length size) := by
  have hminus : Opcode.subtract.operator? = some .subtract := rfl
  exact Param.value_binary hminus value_length rfl

-- The index of a slot designates the place with as many slots after it as its depth says.
theorem value_slotIndex (hI : I.FindsSlots) (arguments : String → V)
    (hdepth : depth < (w.lists list).length) (hfit : depth < 2 ^ 32) :
    ∃ i, (slotIndex list depth).value I arguments w = some i ∧
      (I.index i).place? (w.lists list).length = some ((w.lists list).length - depth - 1) := by
  unfold slotIndex
  by_cases hzero : depth = 0
  · refine ⟨I.literal (.text "last"), by rw [if_pos hzero]; rfl, ?_⟩
    rw [hI.index_last, Index.place?, if_pos (by omega), hzero, Nat.sub_zero]
  · refine ⟨I.behindEnd (w.lists list).length depth, ?_, hI.place?_behindEnd hdepth hfit⟩
    rw [if_neg hzero]
    exact value_behindEnd depth

theorem value_itemIndex (size : Nat) (hp : p.value I arguments w = some v) :
    (itemIndex list depth size p).value I arguments w =
      some (I.binary .add (I.behindEnd (w.lists list).length (depth + size)) v) := by
  have hplus : Opcode.add.operator? = some .add := rfl
  exact Param.value_binary hplus (value_behindEnd (depth + size)) hp

theorem value_read (hp : p.value I arguments w = some v) :
    (read list p).value I arguments w = some (I.item v (w.lists list)) := by
  have hitem : (read list p).value I arguments w =
      (p.value I arguments w).map fun i => I.item i (w.lists list) := rfl
  rw [hitem, hp]
  rfl

theorem run_push (hp : p.value I arguments w = some v) :
    (push list p).run I arguments n w = .next (w.setList list (w.lists list ++ [v])) := by
  have hrun : (push list p).run I arguments n w = Outcome.given (p.value I arguments w) fun v =>
      .next (w.setList list (w.lists list ++ [v])) := rfl
  rw [hrun, hp]
  rfl

theorem run_write (hp : p.value I arguments w = some u) (hq : q.value I arguments w = some v) :
    (write list p q).run I arguments n w =
      .next (w.setList list (I.replace u v (w.lists list))) := by
  have hrun : (write list p q).run I arguments n w =
      Outcome.given (p.value I arguments w) fun i => Outcome.given (q.value I arguments w) fun v =>
        .next (w.setList list (I.replace i v (w.lists list))) := rfl
  rw [hrun, hp, hq]
  rfl

-- A slot is read and written at its place, which is known by the slots after it.

section Slot

variable (hI : I.FindsSlots) {before after : List V} (h : w.lists list = before ++ [u] ++ after)
  (hfit : after.length < 2 ^ 32)

include hI h hfit

theorem place?_slotIndex (arguments : String → V) :
    ∃ i, (slotIndex list after.length).value I arguments w = some i ∧
      (I.index i).place? (w.lists list).length = some before.length := by
  have hlen : (w.lists list).length = before.length + 1 + after.length := by
    rw [h]
    simp only [List.length_append, List.length_singleton]
  have hlt : after.length < (w.lists list).length := by omega
  obtain ⟨i, hi, hplace⟩ := value_slotIndex hI arguments hlt hfit
  -- The depth counts from the end of the list, and a place from its start.
  have hlast : (w.lists list).length - after.length - 1 = before.length := by omega
  exact ⟨i, hi, by rw [hplace, hlast]⟩

theorem value_slot : (read list (slotIndex list after.length)).value I arguments w = some u := by
  obtain ⟨i, hi, hplace⟩ := place?_slotIndex hI h hfit arguments
  rw [value_read hi, Interpretation.item_of_place? hplace (v := u) (by rw [h]; simp)]

theorem run_write_slot (hp : p.value I arguments w = some v) :
    (write list (slotIndex list after.length) p).run I arguments n w =
      .next (w.setList list (before ++ [v] ++ after)) := by
  obtain ⟨i, hi, hplace⟩ := place?_slotIndex hI h hfit arguments
  rw [run_write hi hp, Interpretation.replace_of_place? hplace, h]
  simp

end Slot

theorem run_deleteLast (hI : I.Lawful) {xs : List V} (h : w.lists list = xs ++ [v]) :
    (deleteLast list).run I arguments n w = .next (w.setList list xs) := by
  have hrun : (deleteLast list).run I arguments n w =
      .next (w.setList list (I.delete (I.literal (.text "last")) (w.lists list))) := rfl
  rw [hrun, h, hI.delete_last]

theorem times_deleteLast (hI : I.Lawful) {xs ys : List V} (h : w.lists list = xs ++ ys) :
    Outcome.times (fun w => Block.runAll I arguments n [deleteLast list] w) ys.length w =
      .next (w.setList list xs) := by
  induction ys using List.reverseRecOn generalizing w with
  | nil =>
      rw [List.append_nil] at h
      rw [← h, w.setList_self]
      rfl
  | append_singleton ys y ih =>
      rw [← List.append_assoc] at h
      have hrest := ih (w := w.setList list (xs ++ ys)) (w.lists_setList list _)
      rw [Memory.setList_setList] at hrest
      rw [List.length_append, List.length_singleton, Outcome.times, Block.runAll_singleton,
        run_deleteLast hI h]
      exact hrest

-- As many slots are released as the literal count says.
theorem run_release (hI : I.Lawful) {xs ys : List V} (h : w.lists list = xs ++ ys)
    (hfit : ys.length < 2 ^ 32) :
    (release list ys.length).run I arguments n w = .next (w.setList list xs) := by
  rw [release]
  by_cases hone : ys.length = 1
  · obtain ⟨y, rfl⟩ := List.length_eq_one_iff.mp hone
    rw [if_pos hone]
    exact run_deleteLast hI h
  · have hcount := hI.count_offset ys.length hfit
    rw [Interpretation.offset] at hcount
    have hrun : (Block.make .repeatTimes [.number (Float.ofNat ys.length),
        .body [deleteLast list]]).run I arguments n w =
        Outcome.times (fun w => Block.runAll I arguments n [deleteLast list] w)
          (I.count (I.literal (.number (Float.ofNat ys.length)))) w := rfl
    rw [if_neg hone, hrun, hcount]
    exact times_deleteLast hI h

end Stack

end Machine

end SpriteCompiler
