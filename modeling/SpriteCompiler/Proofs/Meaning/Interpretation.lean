import SpriteCompiler.Folding
import Mathlib.Tactic

namespace SpriteCompiler

-- What a value says when it is used as an index. Items are numbered from one.
inductive Index where
  | last
  | item (number : Nat)
  | other
  deriving DecidableEq

-- The place in a list of this length, counted from zero.
def Index.place? (length : Nat) : Index → Option Nat
  | .last => if 0 < length then some (length - 1) else none
  | .item number => if 0 < number ∧ number ≤ length then some (number - 1) else none
  | .other => none

-- What values and operators mean when a program runs. Both can be anything; the few laws that compiling
-- relies on are stated apart.
structure Interpretation (V : Type) where
  literal : Literal → V
  unary : UnaryOp → V → V
  binary : BinaryOp → V → V → V
  truth : V → Bool
  -- how often a loop runs that has this count
  count : V → Nat
  index : V → Index
  -- the number of items of a list
  length : Nat → V
  -- the items of a list as one value
  contents : List V → V
  -- what is read where there is nothing
  missing : V

namespace Interpretation

variable {V : Type} (I : Interpretation V)

def item (i : V) (xs : List V) : V :=
  ((I.index i).place? xs.length).elim I.missing fun k => xs.getD k I.missing

-- An index that designates nothing changes nothing.
def replace (i v : V) (xs : List V) : List V :=
  ((I.index i).place? xs.length).elim xs fun k => xs.set k v

def delete (i : V) (xs : List V) : List V :=
  ((I.index i).place? xs.length).elim xs xs.eraseIdx

-- An item by its number. A number is the only index of a local array.
def element? (i : V) (xs : List V) : Option V :=
  match I.index i with
  | .item number => if 0 < number then xs[number - 1]? else none
  | _ => none

-- Where the operator is applied to these literals at compile time, it gives the same.
def Agrees (op : BinaryOp) (left right : Literal) : Prop :=
  ∀ loc value, op.fold left right loc = .ok value →
    I.binary op (I.literal left) (I.literal right) = I.literal value

-- The number by which `d` slots at the end of a list are written.
def offset (d : Nat) : V :=
  I.literal (.number (Float.ofNat d))

-- The index before the last `d` items of a list.
def behindEnd (length d : Nat) : V :=
  I.binary .subtract (I.length length) (I.offset d)

-- A slot of a list is found by the number of slots after it.
structure FindsSlots : Prop where
  index_last : I.index (I.literal (.text "last")) = .last
  index_behindEnd : ∀ length d, d ≤ length → d < 2 ^ 32 →
    I.index (I.behindEnd length d) = .item (length - d)

structure Lawful : Prop extends I.FindsSlots where
  minus : ∀ v, I.unary .minus v = I.binary .subtract (I.literal (.number 0.0)) v
  notEqual : ∀ v w, I.binary .notEqual v w = I.unary .not (I.binary .equal v w)
  lessEqual : ∀ v w, I.binary .lessEqual v w = I.unary .not (I.binary .greater v w)
  greaterEqual : ∀ v w, I.binary .greaterEqual v w = I.unary .not (I.binary .less v w)
  fold_unary : ∀ op operand loc value, UnaryOp.fold op operand loc = .ok value →
    I.unary op (I.literal operand) = I.literal value
  -- for the two comparisons left out, see `Lawful.not_agrees`
  fold_binary : ∀ op left right, op ≠ .lessEqual → op ≠ .greaterEqual → I.Agrees op left right
  truth_true : I.truth (I.literal (.boolean true)) = true
  truth_not : ∀ v, I.truth (I.unary .not v) = !I.truth v
  truth_and : ∀ v w, I.truth (I.binary .and v w) = (I.truth v && I.truth w)
  count_offset : ∀ d, d < 2 ^ 32 → I.count (I.offset d) = d
  index_add : ∀ length d i number, d ≤ length → d < 2 ^ 32 → I.index i = .item number →
    I.index (I.binary .add (I.behindEnd length d) i) = .item (length - d + number)

-- Slots are counted exactly from the end of a list, wherever the count leads.
structure Counts : Prop extends I.FindsSlots where
  -- before the first item there is nothing
  place?_behindEnd : ∀ length d size, length < d → d < 2 ^ 32 →
    (I.index (I.behindEnd length d)).place? size = none
  behindEnd_add : ∀ length d k, d + k < 2 ^ 32 →
    I.behindEnd (length + k) (d + k) = I.behindEnd length d
  index_add : ∀ length d i, d < 2 ^ 32 → I.index (I.binary .add (I.behindEnd length d) i) ≠ .last

variable {I} {i : V} {xs : List V} {k : Nat}

-- At compile time both a comparison and its opposite are false of something that is not a number. So
-- it is too much to ask of an interpretation that it agrees everywhere.
theorem Lawful.not_agrees (hI : I.Lawful) :
    ¬I.Agrees .lessEqual (.number (0.0 / 0.0)) (.number (0.0 / 0.0)) := by
  intro hagrees
  let loc : Location := ⟨0, ⟨0, 0⟩⟩
  have hfalse := hI.fold_unary .not (.boolean true) loc (.boolean false) rfl
  have htrue := hI.fold_unary .not (.boolean false) loc (.boolean true) rfl
  have hgreater := hI.fold_binary .greater (.number (0.0 / 0.0)) (.number (0.0 / 0.0)) (by decide)
    (by decide) loc (.boolean false) rfl
  have hless := hagrees loc (.boolean false) rfl
  have hopposite : I.literal (.boolean false) = I.literal (.boolean true) := by
    rw [← hless, hI.lessEqual, hgreater, htrue]
  have htruth := hI.truth_not (I.literal (.boolean true))
  rw [hfalse, hopposite, hI.truth_true] at htruth
  cases htruth

-- What an index does at the place it designates.

theorem item_of_place? (h : (I.index i).place? xs.length = some k) {v : V} (hv : xs[k]? = some v) :
    I.item i xs = v := by
  simp [item, h, hv]

theorem replace_of_place? (h : (I.index i).place? xs.length = some k) (v : V) :
    I.replace i v xs = xs.set k v := by
  rw [replace, h, Option.elim_some]

theorem Lawful.delete_last (hI : I.Lawful) (xs : List V) (v : V) :
    I.delete (I.literal (.text "last")) (xs ++ [v]) = xs := by
  simp [delete, hI.index_last, Index.place?, List.eraseIdx_append_of_length_le]

-- Counted from the end, the slot before the last `d` ones.
theorem FindsSlots.place?_behindEnd (hI : I.FindsSlots) {length d : Nat} (hd : d < length)
    (hfit : d < 2 ^ 32) :
    (I.index (I.behindEnd length d)).place? length = some (length - d - 1) := by
  rw [hI.index_behindEnd length d (Nat.le_of_lt hd) hfit, Index.place?, if_pos (by omega)]

-- An item of a block of `size` slots that ends where the last `d` ones begin.
theorem Lawful.item_of_element? (hI : I.Lawful) {before ys after : List V} {v : V}
    (hfit : after.length + ys.length < 2 ^ 32) (h : I.element? i ys = some v) :
    I.item (I.binary .add (I.behindEnd (before ++ ys ++ after).length (after.length + ys.length)) i)
      (before ++ ys ++ after) = v := by
  rw [element?] at h
  split at h
  · next number hnumber =>
      by_cases hpos : 0 < number
      · rw [if_pos hpos] at h
        have hlt := (List.getElem?_eq_some_iff.mp h).1
        have hlen : (before ++ ys ++ after).length = before.length + ys.length + after.length := by
          simp only [List.length_append]
        have hindex := hI.index_add (before ++ ys ++ after).length (after.length + ys.length) i
          number (by omega) hfit hnumber
        refine item_of_place? (k := before.length + (number - 1)) ?_ ?_
        · rw [hindex, Index.place?, if_pos (by omega)]
          congr 1
          omega
        · rw [List.append_assoc, List.getElem?_append_right (by omega),
            List.getElem?_append_left (by omega), Nat.add_sub_cancel_left]
          exact h
      · simp [hpos] at h
  · cases h

-- What an index reads stays the same when items are added, unless it designates one of them.
theorem item_append {ys : List V} (hlast : I.index i ≠ .last)
    (h : ∀ number, I.index i = .item number →
      number ≤ xs.length ∨ xs.length + ys.length < number) :
    I.item i (xs ++ ys) = I.item i xs := by
  unfold item
  cases hi : I.index i with
  | last => exact absurd hi hlast
  | other => rfl
  | item number =>
      simp only [Index.place?, List.length_append]
      rcases h number hi with hle | hlt
      · by_cases hpos : 0 < number
        · rw [if_pos (by omega), if_pos (by omega)]
          simp only [Option.elim_some, List.getD_eq_getElem?_getD]
          rw [List.getElem?_append_left (by omega)]
        · rw [if_neg (by omega), if_neg (by omega)]
          rfl
      · rw [if_neg (by omega), if_neg (by omega)]
        rfl

-- The last item is the one with no slots after it.
theorem Counts.item_last (hI : I.Counts) (xs : List V) :
    I.item (I.literal (.text "last")) xs = I.item (I.behindEnd xs.length 0) xs := by
  have hindex := hI.index_behindEnd xs.length 0 (Nat.zero_le _) (by omega)
  simp only [item, hI.index_last, hindex, Index.place?, Nat.sub_zero, Nat.le_refl, and_true]

-- A slot is found again when as many more slots are after it as were added.
theorem Counts.item_behindEnd (hI : I.Counts) {d : Nat} {ys : List V}
    (hfit : d + ys.length < 2 ^ 32) :
    I.item (I.behindEnd (xs ++ ys).length (d + ys.length)) (xs ++ ys) =
      I.item (I.behindEnd xs.length d) xs := by
  rw [List.length_append, hI.behindEnd_add _ _ _ hfit]
  by_cases hd : d ≤ xs.length
  · have hindex := hI.index_behindEnd xs.length d hd (by omega)
    apply item_append
    · simp [hindex]
    · intro number hnumber
      rw [hindex] at hnumber
      have := Index.item.inj hnumber
      omega
  · have hnone (size : Nat) := hI.place?_behindEnd xs.length d size (by omega) (by omega)
    rw [item, item, hnone, hnone]
    rfl

end Interpretation

end SpriteCompiler
