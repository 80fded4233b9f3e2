import SpriteCompiler.Stack.Access
import SpriteCompiler.Stack.Release
import SpriteCompiler.Block.Operation
import Mathlib.Tactic

namespace SpriteCompiler

inductive Reference where
  | variable (name : String)
  | list (name : String)
  | parameter (name : String)
  | nothing
  deriving DecidableEq

-- The parameter that is a name, counted from zero, and what it is the name of.
def Opcode.namePlace? : Opcode → Option ((String → Reference) × Nat)
  | .setVariable | .changeVariable | .readVariable => some (.variable, 0)
  | .getParam => some (.parameter, 0)
  | .lengthOfList | .contentsOfList => some (.list, 0)
  | .itemOfList | .replaceItemOfList | .deleteOfList | .appendToList => some (.list, 1)
  | _ => none

mutual

-- A block and all blocks inside it, at every depth.
def Block.parts : Block → List Block
  | .mk opcode params => .mk opcode params :: Param.partsAll params

def Param.parts : Param → List Block
  | .block b => b.parts
  | .body blocks => Block.partsAll blocks
  | .literal _ | .empty => []

def Param.partsAll : List Param → List Block
  | [] => []
  | p :: rest => p.parts ++ Param.partsAll rest

def Block.partsAll : List Block → List Block
  | [] => []
  | b :: rest => b.parts ++ Block.partsAll rest

end

variable {K : Reference → Prop}

-- By itself, a block refers only to what `K` allows: the name that its instruction takes is written
-- down in it, and a placeholder among its parameters counts as a reference to nothing.
structure Block.RefersTo (K : Reference → Prop) (b : Block) : Prop where
  name : ∀ kind place, b.opcode.namePlace? = some (kind, place) →
    ∃ x, b.params[place]? = some (.text x) ∧ K (kind x)
  filled : Param.empty ∈ b.params → K .nothing

-- The blocks refer only to what `K` allows, at every depth.
def Block.AllReferTo (K : Reference → Prop) (blocks : List Block) : Prop :=
  ∀ b ∈ Block.partsAll blocks, b.RefersTo K

-- The same of a parameter, which may be a placeholder itself.
structure Param.RefersTo (K : Reference → Prop) (p : Param) : Prop where
  parts : ∀ b ∈ p.parts, b.RefersTo K
  filled : p = .empty → K .nothing

theorem Param.mem_partsAll {b : Block} {ps : List Param} :
    b ∈ Param.partsAll ps ↔ ∃ p ∈ ps, b ∈ p.parts := by
  induction ps with
  | nil => simp [Param.partsAll]
  | cons p ps ih => simp [Param.partsAll, ih]

theorem Block.partsAll_append (a b : List Block) :
    Block.partsAll (a ++ b) = Block.partsAll a ++ Block.partsAll b := by
  induction a with
  | nil => rfl
  | cons x a ih => simp only [List.cons_append, Block.partsAll, ih, List.append_assoc]

namespace Block

theorem AllReferTo.append {a b : List Block} (ha : AllReferTo K a) (hb : AllReferTo K b) :
    AllReferTo K (a ++ b) := by
  intro c hc
  rw [partsAll_append, List.mem_append] at hc
  exact hc.elim (ha c) (hb c)

-- The parts of a block are the block itself and those of its parameters.
theorem refersTo_parts {op : Opcode} {ps : List Param} (hps : ∀ p ∈ ps, p.RefersTo K)
    (hname : ∀ kind place, op.namePlace? = some (kind, place) →
      ∃ x, ps[place]? = some (.text x) ∧ K (kind x)) :
    ∀ b ∈ (Block.mk op ps).parts, b.RefersTo K := by
  intro b hb
  rw [parts, List.mem_cons] at hb
  obtain rfl | hb := hb
  · exact ⟨hname, fun hempty => (hps .empty hempty).filled rfl⟩
  · obtain ⟨p, hp, hb⟩ := Param.mem_partsAll.mp hb
    exact (hps p hp).parts b hb

variable {op : Opcode} {ps : List Param} {kind : String → Reference} {place : Nat} {x : String}

-- An instruction that takes no name.
theorem refersTo_unnamed (hop : op.namePlace? = none) (hps : ∀ p ∈ ps, p.RefersTo K) :
    ∀ b ∈ (Block.mk op ps).parts, b.RefersTo K :=
  refersTo_parts hps fun kind place h => by simp [hop] at h

-- An instruction that takes a name.
theorem refersTo_named (hop : op.namePlace? = some (kind, place))
    (hx : ps[place]? = some (.text x)) (hK : K (kind x)) (hps : ∀ p ∈ ps, p.RefersTo K) :
    ∀ b ∈ (Block.mk op ps).parts, b.RefersTo K :=
  refersTo_parts hps fun kind' place' h => by
    rw [hop, Option.some.injEq, Prod.mk.injEq] at h
    obtain ⟨rfl, rfl⟩ := h
    exact ⟨x, hx, hK⟩

theorem allReferTo_singleton {b : Block} (h : ∀ c ∈ b.parts, c.RefersTo K) :
    AllReferTo K [b] := by
  intro c hc
  rw [partsAll, partsAll, List.append_nil] at hc
  exact h c hc

end Block

namespace Param

theorem refersTo_literal (value : Literal) : (literal value).RefersTo K where
  parts b hb := by simp [Param.parts] at hb
  filled h := by cases h

theorem refersTo_text (x : String) : (text x).RefersTo K :=
  refersTo_literal _

theorem refersTo_block {b : Block} (h : ∀ c ∈ b.parts, c.RefersTo K) : (block b).RefersTo K where
  parts := h
  filled h := by cases h

theorem refersTo_body {blocks : List Block} (h : Block.AllReferTo K blocks) :
    (body blocks).RefersTo K where
  parts := h
  filled h := by cases h

end Param

-- Operators take no names, so that they refer to what their operands refer to.

theorem UnaryOp.refersTo_apply (op : UnaryOp) (o : Options) {p : Param} (loc : Location)
    (hp : p.RefersTo K) : (op.apply o p loc).RefersTo K := by
  rw [UnaryOp.apply]
  cases hfold : op.foldParam? o p loc with
  | none =>
      cases op with
      | minus =>
          exact Param.refersTo_block (Block.refersTo_unnamed rfl
            (by simp [Param.number, Param.refersTo_literal, hp]))
      | not => exact Param.refersTo_block (Block.refersTo_unnamed rfl (by simp [hp]))
  | some q =>
      simp only [UnaryOp.foldParam?, Option.ite_none_right_eq_some, Option.bind_eq_some_iff,
        Option.map_eq_some_iff] at hfold
      obtain ⟨_, _, _, value, _, rfl⟩ := hfold
      exact Param.refersTo_literal value

theorem BinaryOp.refersTo_block (op : BinaryOp) {p q : Param} (hp : p.RefersTo K)
    (hq : q.RefersTo K) : (op.block p q).RefersTo K := by
  have hop : op.opcode.namePlace? = none := by cases op <;> rfl
  have hdirect : (Param.block (.make op.opcode [p, q] op.arity_opcode.symm)).RefersTo K :=
    Param.refersTo_block (Block.refersTo_unnamed hop (by simp [hp, hq]))
  rw [BinaryOp.block]
  split
  · exact Param.refersTo_block (Block.refersTo_unnamed rfl (by simpa using hdirect))
  · exact hdirect

theorem BinaryOp.refersTo_apply (op : BinaryOp) (o : Options) {p q : Param} (loc : Location)
    (hp : p.RefersTo K) (hq : q.RefersTo K) : (op.apply o p q loc).RefersTo K := by
  rw [BinaryOp.apply]
  cases hfold : op.foldParams? o p q loc with
  | none => exact op.refersTo_block hp hq
  | some r =>
      simp only [BinaryOp.foldParams?, Option.ite_none_right_eq_some, Option.bind_eq_some_iff,
        Option.map_eq_some_iff] at hfold
      obtain ⟨_, _, _, _, _, value, _, rfl⟩ := hfold
      exact Param.refersTo_literal value

-- What is done with the stack refers to the list that it is kept in.
namespace Stack

variable {list : String} (hlist : K (.list list))

include hlist

theorem refersTo_behindEnd (n : Nat) :
    (Param.block (.make .subtract [length list, .number (Float.ofNat n)])).RefersTo K := by
  have hlength : (length list).RefersTo K :=
    Param.refersTo_block (Block.refersTo_named rfl rfl hlist (by simp [Param.refersTo_text]))
  exact Param.refersTo_block (Block.refersTo_unnamed rfl
    (by simp [hlength, Param.number, Param.refersTo_literal]))

theorem refersTo_slotIndex (depth : Nat) : (slotIndex list depth).RefersTo K := by
  unfold slotIndex
  split
  · exact Param.refersTo_text _
  · exact refersTo_behindEnd hlist depth

theorem refersTo_itemIndex (depth size : Nat) {index : Param} (h : index.RefersTo K) :
    (itemIndex list depth size index).RefersTo K :=
  Param.refersTo_block (Block.refersTo_unnamed rfl
    (by simpa [h] using refersTo_behindEnd hlist (depth + size)))

theorem refersTo_read {index : Param} (h : index.RefersTo K) : (read list index).RefersTo K :=
  Param.refersTo_block (Block.refersTo_named rfl rfl hlist (by simp [h, Param.refersTo_text]))

theorem allReferTo_release (slots : Nat) : Block.AllReferTo K [release list slots] := by
  have hdelete : Block.AllReferTo K [deleteLast list] :=
    Block.allReferTo_singleton (Block.refersTo_named rfl rfl hlist (by simp [Param.refersTo_text]))
  unfold release
  split
  · exact hdelete
  · exact Block.allReferTo_singleton (Block.refersTo_unnamed rfl
      (by simp [Param.number, Param.refersTo_literal, Param.refersTo_body hdelete]))

end Stack

end SpriteCompiler
