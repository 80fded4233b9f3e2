import SpriteCompiler.Proofs.Meaning.Interpretation
import SpriteCompiler.Proofs.Number.Exact

namespace SpriteCompiler

-- Values for which all laws hold. The lengths of lists are numbers of their own, because doubles are not
-- exact.
inductive Datum where
  | known (value : Literal)
  | whole (value : Nat)

-- The result of an operator does not depend on where it stands.
theorem BinaryOp.fold_loc {op : BinaryOp} {left right value : Literal} {loc : Location}
    (h : op.fold left right loc = .ok value) (loc' : Location) :
    op.fold left right loc' = .ok value := by
  have hok {r : Option Literal} {e e' : FoldError}
      (h : r.elim (Except.error e) Except.ok = .ok value) :
      r.elim (Except.error e') Except.ok = .ok value := by
    cases r with
    | none => cases h
    | some l => exact h
  unfold BinaryOp.fold at h ⊢
  simp only at h ⊢
  split at h
  · exact h
  · split at h
    · cases h
    · next hzero =>
        rw [if_neg hzero]
        exact hok h
  · exact hok h
  · cases h

namespace Datum

def number? : Datum → Option Nat
  | .known (.number x) => Number.natural? x
  | .known _ => none
  | .whole k => some k

def truth : Datum → Bool
  | .known (.boolean b) => b
  | _ => false

def blank : Datum :=
  .known (.text "")

def combine (op : BinaryOp) (d e : Datum) : Datum :=
  match d, e with
  | .known l, .known r => (op.fold l r ⟨0, ⟨0, 0⟩⟩).toOption.elim blank .known
  | _, _ =>
    match op with
    | .add => .whole (d.number?.getD 0 + e.number?.getD 0)
    | .subtract => .whole (d.number?.getD 0 - e.number?.getD 0)
    | _ => blank

def opposite (d : Datum) : Datum :=
  .known (.boolean !d.truth)

def index : Datum → Index
  | .known (.text "last") => .last
  | d => d.number?.elim .other .item

end Datum

def Interpretation.exact : Interpretation Datum where
  literal := .known
  unary op d :=
    match op with
    | .minus => .combine .subtract (.known (.number 0.0)) d
    | .not => d.opposite
  binary op d e :=
    match op with
    | .notEqual => (Datum.combine .equal d e).opposite
    | .lessEqual => (Datum.combine .greater d e).opposite
    | .greaterEqual => (Datum.combine .less d e).opposite
    | op => .combine op d e
  truth := Datum.truth
  count d := d.number?.getD 0
  index := Datum.index
  length := .whole
  contents _ := .blank
  missing := .blank

namespace Datum

theorem combine_known {op : BinaryOp} {left right value : Literal} (loc : Location)
    (h : op.fold left right loc = .ok value) :
    combine op (.known left) (.known right) = .known value := by
  simp [combine, BinaryOp.fold_loc h, Except.toOption]

theorem combine_add (k : Nat) (e : Datum) :
    combine .add (.whole k) e = .whole (k + e.number?.getD 0) := by
  cases e <;> rfl

theorem combine_subtract (k : Nat) (e : Datum) :
    combine .subtract (.whole k) e = .whole (k - e.number?.getD 0) := by
  cases e <;> rfl

theorem truth_and (d e : Datum) : (combine .and d e).truth = (d.truth && e.truth) := by
  obtain l | k := d
  · obtain r | k := e
    · cases l <;> cases r <;> simp [combine, BinaryOp.fold, BinaryOp.foldNumbers?,
        BinaryOp.foldBooleans?, Except.toOption, truth, blank]
    · simp [combine, truth, blank]
  · simp [combine, truth, blank]

theorem number?_of_index {d : Datum} {k : Nat} (h : d.index = .item k) : d.number? = some k := by
  unfold index at h
  split at h
  · cases h
  · cases hd : d.number? with
    | none => simp [hd] at h
    | some j =>
        rw [hd, Option.elim_some] at h
        exact congrArg some (Index.item.inj h)

end Datum

namespace Interpretation

theorem number?_offset {d : Nat} (hd : d < 2 ^ 32) : (exact.offset d).number? = some d :=
  Number.natural?_ofNat hd

theorem behindEnd_exact {length d : Nat} (hd : d < 2 ^ 32) :
    exact.behindEnd length d = .whole (length - d) := by
  change Datum.combine .subtract (.whole length) (exact.offset d) = _
  rw [Datum.combine_subtract, number?_offset hd, Option.getD_some]

theorem findsSlots_exact : exact.FindsSlots where
  index_last := rfl
  index_behindEnd length d hle hd := by
    rw [behindEnd_exact hd]
    rfl

theorem lawful_exact : exact.Lawful where
  toFindsSlots := findsSlots_exact
  minus _ := rfl
  notEqual _ _ := rfl
  lessEqual _ _ := rfl
  greaterEqual _ _ := rfl
  fold_unary op operand loc value h := by
    cases op with
    | minus =>
        cases operand with
        | number x =>
            cases h
            have hzero : BinaryOp.subtract.fold (.number 0.0) (.number x) loc =
                .ok (.number (0.0 - x)) := rfl
            exact Datum.combine_known loc hzero
        | _ => cases h
    | not =>
        cases operand with
        | boolean b =>
            cases h
            rfl
        | _ => cases h
  fold_binary op left right hle hge loc value h := by
    cases op with
    | lessEqual => exact absurd rfl hle
    | greaterEqual => exact absurd rfl hge
    | notEqual =>
        cases left with
        | number x =>
            cases right with
            | number y =>
                cases h
                have hequal : BinaryOp.equal.fold (.number x) (.number y) loc =
                    .ok (.boolean (x == y)) := rfl
                exact congrArg Datum.opposite (Datum.combine_known loc hequal)
            | _ => cases h
        | boolean a =>
            cases right with
            | boolean b =>
                cases h
                have hequal : BinaryOp.equal.fold (.boolean a) (.boolean b) loc =
                    .ok (.boolean (a == b)) := rfl
                exact congrArg Datum.opposite (Datum.combine_known loc hequal)
            | _ => cases h
        | text s => cases right <;> cases h
    | _ => exact Datum.combine_known loc h
  truth_true := rfl
  truth_not _ := rfl
  truth_and := Datum.truth_and
  count_offset d hd := by
    change (exact.offset d).number?.getD 0 = d
    rw [number?_offset hd, Option.getD_some]
  index_add length d i number hle hd hi := by
    have hnumber : i.number? = some number := Datum.number?_of_index hi
    rw [behindEnd_exact hd]
    change (Datum.combine .add (.whole (length - d)) i).index = _
    rw [Datum.combine_add, hnumber, Option.getD_some]
    rfl

theorem counts_exact : exact.Counts where
  toFindsSlots := findsSlots_exact
  place?_behindEnd length d size hlt hd := by
    have hzero : length - d = 0 := by omega
    rw [behindEnd_exact hd, hzero]
    rfl
  behindEnd_add length d k hfit := by
    rw [behindEnd_exact hfit, behindEnd_exact (by omega), Nat.add_sub_add_right]
  index_add length d i hd := by
    rw [behindEnd_exact hd]
    change (Datum.combine .add (.whole (length - d)) i).index ≠ .last
    rw [Datum.combine_add]
    exact nofun

end Interpretation

end SpriteCompiler
