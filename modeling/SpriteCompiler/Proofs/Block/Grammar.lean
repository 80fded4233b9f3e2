import SpriteCompiler.Proofs.Code.Command
import Mathlib.Tactic

namespace SpriteCompiler

namespace Opcode

-- The instruction stands in a body.
def isStatement : Opcode → Bool
  | .setVariable | .changeVariable | .appendToList | .replaceItemOfList | .deleteOfList | .stop =>
    true
  | op => op.isControl

-- The instruction reports a value.
def isReporter : Opcode → Bool
  | .readVariable | .getParam | .itemOfList | .lengthOfList | .contentsOfList | .add | .subtract
  | .multiply | .divide | .modulo | .concat | .equal | .lessThan | .greaterThan | .and | .or
  | .not => true
  | _ => false

-- The parameter at an index, counted from zero, is a body.
def isBodyAt (op : Opcode) (index : Nat) : Bool :=
  match op with
  | .forever => index == 0
  | .repeatTimes | .repeatUntil | .ifThen => index == 1
  | .ifThenElse => index == 1 || index == 2
  | _ => false

theorem isBodyAt_of_not_isControl {op : Opcode} (h : op.isControl = false) (index : Nat) :
    op.isBodyAt index = false := by
  cases op <;> first | rfl | cases h

theorem not_isControl_of_isReporter {op : Opcode} (h : op.isReporter) : op.isControl = false := by
  cases op <;> first | rfl | cases h

end Opcode

mutual

-- A block keeps to the grammar, with everything inside it.
def Block.wellFormed : Block → Bool
  | .mk op params => params.length == op.arity && Param.allFit op 0 params

-- The parameters of an instruction from an index on, each of the kind that belongs there.
def Param.allFit (op : Opcode) (index : Nat) : List Param → Bool
  | [] => true
  | p :: rest => p.fits (op.isBodyAt index) && Param.allFit op (index + 1) rest

-- A parameter that is a body where one is wanted, and a value where none is.
def Param.fits (asBody : Bool) : Param → Bool
  | .literal _ | .empty => !asBody
  | .block b => !asBody && b.opcode.isReporter && b.wellFormed
  | .body blocks => asBody && Block.isBody blocks

def Block.isBody : List Block → Bool
  | [] => true
  | b :: rest => b.opcode.isStatement && b.wellFormed && Block.isBody rest

end

namespace Param

@[simp] theorem fits_literal (value : Literal) (asBody : Bool) :
    (literal value).fits asBody = !asBody := by
  rw [fits]

@[simp] theorem fits_text (s : String) (asBody : Bool) : (text s).fits asBody = !asBody :=
  fits_literal _ _

@[simp] theorem fits_number (x : Float) (asBody : Bool) : (number x).fits asBody = !asBody :=
  fits_literal _ _

@[simp] theorem fits_body (blocks : List Block) :
    (body blocks).fits true = Block.isBody blocks := by
  rw [fits, Bool.true_and]

variable {op : Opcode} {ps : List Param}

-- Without bodies among them, the parameters are all values.
theorem allFit_of_not_isControl (h : op.isControl = false) (hps : ∀ p ∈ ps, p.fits false)
    (index : Nat) : allFit op index ps := by
  induction ps generalizing index with
  | nil => rw [allFit]
  | cons p ps ih =>
      rw [allFit, Opcode.isBodyAt_of_not_isControl h, hps p (by simp),
        ih (fun q hq => hps q (by simp [hq])), Bool.and_self]

theorem fits_reporter (h : op.isReporter) (hps : ∀ p ∈ ps, p.fits false)
    (hlen : ps.length = op.arity) : (block (.make op ps hlen)).fits false := by
  have hfit := allFit_of_not_isControl (Opcode.not_isControl_of_isReporter h) hps 0
  simp only [fits, Block.make, Block.opcode, Block.wellFormed, h, hlen, hfit, beq_self_eq_true,
    Bool.not_false, Bool.and_self]

end Param

namespace Block

theorem isBody_append (a b : List Block) : isBody (a ++ b) = (isBody a && isBody b) := by
  induction a with
  | nil => rw [List.nil_append, isBody, Bool.true_and]
  | cons x a ih => simp only [List.cons_append, isBody, ih, Bool.and_assoc]

theorem isBody_singleton {op : Opcode} {ps : List Param} (h : op.isStatement)
    (hfit : Param.allFit op 0 ps) (hlen : ps.length = op.arity) :
    isBody [.make op ps hlen] := by
  simp only [isBody, make, opcode, wellFormed, h, hlen, hfit, beq_self_eq_true, Bool.and_self]

-- An instruction without bodies.
theorem isBody_plain {op : Opcode} {ps : List Param} (h : op.isStatement)
    (hcontrol : op.isControl = false) (hps : ∀ p ∈ ps, p.fits false)
    (hlen : ps.length = op.arity) : isBody [.make op ps hlen] :=
  isBody_singleton h (Param.allFit_of_not_isControl hcontrol hps 0) hlen

end Block

-- Operators on values are values.

theorem UnaryOp.fits_block (op : UnaryOp) {p : Param} (h : p.fits false) :
    (op.block p).fits false := by
  cases op with
  | minus => exact Param.fits_reporter rfl (by simp [h]) rfl
  | not => exact Param.fits_reporter rfl (by simp [h]) rfl

theorem UnaryOp.fits_apply (op : UnaryOp) (o : Options) {p : Param} (loc : Location)
    (h : p.fits false) : (op.apply o p loc).fits false := by
  rw [UnaryOp.apply]
  cases hfold : op.foldParam? o p loc with
  | none => exact op.fits_block h
  | some q =>
      simp only [UnaryOp.foldParam?, Option.ite_none_right_eq_some, Option.bind_eq_some_iff,
        Option.map_eq_some_iff] at hfold
      obtain ⟨_, _, _, value, _, rfl⟩ := hfold
      rfl

theorem BinaryOp.fits_block (op : BinaryOp) {p q : Param} (hp : p.fits false) (hq : q.fits false) :
    (op.block p q).fits false := by
  have hop : op.opcode.isReporter := by cases op <;> rfl
  have hvalues : ∀ r ∈ [p, q], r.fits false := by simp [hp, hq]
  have hdirect := Param.fits_reporter hop hvalues op.arity_opcode.symm
  cases hopp : op.isOpposite with
  | true =>
      simp only [BinaryOp.block, hopp, if_true]
      exact Param.fits_reporter rfl (by simpa using hdirect) rfl
  | false => simpa only [BinaryOp.block, hopp, Bool.false_eq_true, if_false] using hdirect

theorem BinaryOp.fits_apply (op : BinaryOp) (o : Options) {p q : Param} (loc : Location)
    (hp : p.fits false) (hq : q.fits false) : (op.apply o p q loc).fits false := by
  rw [BinaryOp.apply]
  cases hfold : op.foldParams? o p q loc with
  | none => exact op.fits_block hp hq
  | some r =>
      simp only [BinaryOp.foldParams?, Option.ite_none_right_eq_some, Option.bind_eq_some_iff,
        Option.map_eq_some_iff] at hfold
      obtain ⟨_, _, _, _, _, value, _, rfl⟩ := hfold
      rfl

namespace Stack

theorem fits_length (list : String) : (length list).fits false :=
  Param.fits_reporter rfl (by simp) rfl

theorem fits_behindEnd (list : String) (n : Nat) :
    (Param.block (.make .subtract [length list, .number (Float.ofNat n)])).fits false :=
  Param.fits_reporter rfl (by simp [fits_length]) rfl

theorem fits_slotIndex (list : String) (depth : Nat) : (slotIndex list depth).fits false := by
  unfold slotIndex
  split
  · rfl
  · exact fits_behindEnd list depth

theorem fits_itemIndex (list : String) (depth size : Nat) {index : Param} (h : index.fits false) :
    (itemIndex list depth size index).fits false :=
  Param.fits_reporter rfl (by simpa [h] using fits_behindEnd list (depth + size)) rfl

theorem fits_read (list : String) {index : Param} (h : index.fits false) :
    (read list index).fits false :=
  Param.fits_reporter rfl (by simp [h]) rfl

theorem isBody_deleteLast (list : String) : Block.isBody [deleteLast list] :=
  Block.isBody_plain rfl rfl (by simp) rfl

theorem isBody_release (list : String) (slots : Nat) : Block.isBody [release list slots] := by
  unfold release
  split
  · exact isBody_deleteLast list
  · exact Block.isBody_singleton rfl
      (by simp [Opcode.isBodyAt, Param.allFit, isBody_deleteLast]) rfl

end Stack

-- Every operand is written as a value.
theorem Operand.fits_emit (o : Options) (e : Operand) : (e.emit o).fits false := by
  induction e with
  | literal value => rfl
  | empty => rfl
  | global name => exact Param.fits_reporter rfl (by simp) rfl
  | contents list => exact Param.fits_reporter rfl (by simp) rfl
  | param name kind => exact Param.fits_reporter rfl (by simp) rfl
  | cell site => exact Stack.fits_read _ (Stack.fits_slotIndex _ _)
  | item list index ih => exact Param.fits_reporter rfl (by simp [ih]) rfl
  | element site size index ih => exact Stack.fits_read _ (Stack.fits_itemIndex _ _ _ ih)
  | unary op e loc ih => exact op.fits_apply o loc ih
  | binary op a b loc iha ihb => exact op.fits_apply o loc iha ihb

mutual

-- Every command is written as a body, and its own bodies as bodies in their places.
theorem Command.isBody_emit (o : Options) : ∀ c : Command, Block.isBody (c.emit o)
  | .push _ value => Block.isBody_plain rfl rfl (by simp [value.fits_emit o]) rfl
  | .release slots => Stack.isBody_release _ _
  | .store site value =>
      Block.isBody_plain rfl rfl (by simp [value.fits_emit o, Stack.fits_slotIndex]) rfl
  | .setVariable _ value => Block.isBody_plain rfl rfl (by simp [value.fits_emit o]) rfl
  | .changeVariable _ amount => Block.isBody_plain rfl rfl (by simp [amount.fits_emit o]) rfl
  | .scope body => Command.isBody_emitAll o body
  | .repeatTimes count body => by
      have hbody := Command.isBody_emitAll o body
      exact Block.isBody_singleton rfl
        (by simp [Opcode.isBodyAt, Param.allFit, count.fits_emit o, hbody]) rfl
  | .repeatUntil condition body => by
      have hbody := Command.isBody_emitAll o body
      exact Block.isBody_singleton rfl
        (by simp [Opcode.isBodyAt, Param.allFit, condition.fits_emit o, hbody]) rfl
  | .forever body => by
      have hbody := Command.isBody_emitAll o body
      exact Block.isBody_singleton rfl (by simp [Opcode.isBodyAt, Param.allFit, hbody]) rfl
  | .ifThen condition body => by
      have hbody := Command.isBody_emitAll o body
      exact Block.isBody_singleton rfl
        (by simp [Opcode.isBodyAt, Param.allFit, condition.fits_emit o, hbody]) rfl
  | .ifThenElse condition body other => by
      have hbody := Command.isBody_emitAll o body
      have hother := Command.isBody_emitAll o other
      exact Block.isBody_singleton rfl
        (by simp [Opcode.isBodyAt, Param.allFit, condition.fits_emit o, hbody, hother]) rfl
  | .stop => Block.isBody_plain rfl rfl (by simp) rfl

theorem Command.isBody_emitAll (o : Options) :
    ∀ code : List Command, Block.isBody (Command.emitAll o code)
  | [] => rfl
  | c :: rest => by
      rw [Command.emitAll, Block.isBody_append, Command.isBody_emit o c,
        Command.isBody_emitAll o rest, Bool.and_self]

end

end SpriteCompiler
