import SpriteCompiler.Proofs.Meaning.Datum
import SpriteCompiler.Proofs.Meaning.Machine
import SpriteCompiler.Proofs.Number.Order

namespace SpriteCompiler

-- The result of an operator on literals, wherever it stands.

def UnaryOp.value? (op : UnaryOp) (operand : Literal) : Option Literal :=
  (op.fold operand ⟨0, ⟨0, 0⟩⟩).toOption

def BinaryOp.value? (op : BinaryOp) (left right : Literal) : Option Literal :=
  (op.fold left right ⟨0, ⟨0, 0⟩⟩).toOption

-- What a block reports that applies an operator to literals.
def Block.evaluate? (b : Block) : Option Literal :=
  match b.params with
  | [.literal x] => if b.opcode = .not then UnaryOp.not.value? x else none
  | [.literal x, .literal y] => b.opcode.operator?.bind fun op => op.value? x y
  | _ => none

mutual

def Block.folded : Block → Block
  | .mk opcode params => .mk opcode (Param.foldedAll params)

def Param.folded : Param → Param
  | .block b => (b.folded.evaluate?).elim (.block b.folded) .literal
  | .body blocks => .body (Block.foldedAll blocks)
  | .literal value => .literal value
  | .empty => .empty

def Param.foldedAll : List Param → List Param
  | [] => []
  | p :: rest => p.folded :: Param.foldedAll rest

def Block.foldedAll : List Block → List Block
  | [] => []
  | b :: rest => b.folded :: Block.foldedAll rest

end

mutual

-- A block with its bodies, and nothing in place of the values it takes.
def Block.outline : Block → Block
  | .mk opcode params => .mk opcode (Param.outlineAll params)

def Param.outline : Param → Param
  | .body blocks => .body (Block.outlineAll blocks)
  | _ => .empty

def Param.outlineAll : List Param → List Param
  | [] => []
  | p :: rest => p.outline :: Param.outlineAll rest

def Block.outlineAll : List Block → List Block
  | [] => []
  | b :: rest => b.outline :: Block.outlineAll rest

end

mutual

-- The blocks that report a value inside a block, at every depth.
def Block.reporters : Block → List Block
  | .mk _ params => Param.reportersAll params

def Param.reporters : Param → List Block
  | .block b => b :: b.reporters
  | .body blocks => Block.reportersAll blocks
  | _ => []

def Param.reportersAll : List Param → List Block
  | [] => []
  | p :: rest => p.reporters ++ Param.reportersAll rest

def Block.reportersAll : List Block → List Block
  | [] => []
  | b :: rest => b.reporters ++ Block.reportersAll rest

end

theorem Block.foldedAll_append (a b : List Block) :
    foldedAll (a ++ b) = foldedAll a ++ foldedAll b := by
  induction a with
  | nil => rfl
  | cons x a ih => simp only [List.cons_append, foldedAll, ih]

mutual

theorem Block.outline_folded : ∀ b : Block, b.folded.outline = b.outline
  | .mk opcode params => by
      rw [Block.folded, Block.outline, Block.outline, Param.outlineAll_folded params]

theorem Param.outline_folded : ∀ p : Param, p.folded.outline = p.outline
  | .block b => by
      rw [Param.folded]
      cases b.folded.evaluate? <;> rfl
  | .body blocks => by
      rw [Param.folded, Param.outline, Param.outline, Block.outlineAll_folded blocks]
  | .literal _ => rfl
  | .empty => rfl

theorem Param.outlineAll_folded : ∀ ps : List Param,
    Param.outlineAll (Param.foldedAll ps) = Param.outlineAll ps
  | [] => rfl
  | p :: rest => by
      rw [Param.foldedAll, Param.outlineAll, Param.outlineAll, Param.outline_folded p,
        Param.outlineAll_folded rest]

-- The pass keeps every instruction that stands in a body, and every body.
theorem Block.outlineAll_folded : ∀ blocks : List Block,
    Block.outlineAll (Block.foldedAll blocks) = Block.outlineAll blocks
  | [] => rfl
  | b :: rest => by
      rw [Block.foldedAll, Block.outlineAll, Block.outlineAll, Block.outline_folded b,
        Block.outlineAll_folded rest]

end

mutual

theorem Block.evaluate?_of_mem_reporters :
    ∀ (b : Block), ∀ c ∈ b.folded.reporters, c.evaluate? = none
  | .mk opcode params => by
      rw [Block.folded, Block.reporters]
      exact Param.evaluate?_of_mem_reportersAll params

theorem Param.evaluate?_of_mem_reporters :
    ∀ (p : Param), ∀ c ∈ p.folded.reporters, c.evaluate? = none
  | .block b => by
      rw [Param.folded]
      cases hvalue : b.folded.evaluate? with
      | some value => simp [Param.reporters]
      | none =>
          intro c hc
          simp only [Option.elim_none, Param.reporters, List.mem_cons] at hc
          obtain rfl | hc := hc
          · exact hvalue
          · exact Block.evaluate?_of_mem_reporters b c hc
  | .body blocks => by
      rw [Param.folded, Param.reporters]
      exact Block.evaluate?_of_mem_reportersAll blocks
  | .literal _ => by simp [Param.folded, Param.reporters]
  | .empty => by simp [Param.folded, Param.reporters]

theorem Param.evaluate?_of_mem_reportersAll :
    ∀ (ps : List Param), ∀ c ∈ Param.reportersAll (Param.foldedAll ps), c.evaluate? = none
  | [] => by simp [Param.foldedAll, Param.reportersAll]
  | p :: rest => by
      intro c hc
      rw [Param.foldedAll, Param.reportersAll, List.mem_append] at hc
      obtain hc | hc := hc
      · exact Param.evaluate?_of_mem_reporters p c hc
      · exact Param.evaluate?_of_mem_reportersAll rest c hc

-- No operator is left that could be applied.
theorem Block.evaluate?_of_mem_reportersAll :
    ∀ (blocks : List Block), ∀ c ∈ Block.reportersAll (Block.foldedAll blocks), c.evaluate? = none
  | [] => by simp [Block.foldedAll, Block.reportersAll]
  | b :: rest => by
      intro c hc
      rw [Block.foldedAll, Block.reportersAll, List.mem_append] at hc
      obtain hc | hc := hc
      · exact Block.evaluate?_of_mem_reporters b c hc
      · exact Block.evaluate?_of_mem_reportersAll rest c hc

end

-- The pass on operators. What it makes of a block is what applying the operator gives right away.

theorem BinaryOp.toOption_fold (op : BinaryOp) (left right : Literal) (loc : Location) :
    (op.fold left right loc).toOption = op.value? left right := by
  rw [value?]
  cases h : op.fold left right loc with
  | ok value => rw [fold_loc h]
  | error e =>
      cases h' : op.fold left right ⟨0, ⟨0, 0⟩⟩ with
      | ok value => rw [fold_loc h' loc] at h; cases h
      | error e' => rfl

theorem UnaryOp.toOption_fold (op : UnaryOp) (operand : Literal) (loc : Location) :
    (op.fold operand loc).toOption = op.value? operand := by
  cases op <;> cases operand <;> rfl

-- The two comparisons whose block is that of the opposite are not applied to something that is not
-- a number.
def BinaryOp.Ordered (op : BinaryOp) (left right : Param) : Prop :=
  op = .lessEqual ∨ op = .greaterEqual →
    ∀ x y, left = .number x → right = .number y → x.isNaN = false ∧ y.isNaN = false

-- The operator that the instruction of an operator applies.
def BinaryOp.direct : BinaryOp → BinaryOp
  | .notEqual => .equal
  | .lessEqual => .greater
  | .greaterEqual => .less
  | op => op

theorem BinaryOp.operator?_opcode (op : BinaryOp) : op.opcode.operator? = some op.direct := by
  cases op <;> rfl

theorem BinaryOp.direct_eq {op : BinaryOp} (h : op.isOpposite = false) : op.direct = op := by
  cases op <;> first | rfl | cases h

-- An operator without an instruction is the opposite of the one it uses.
theorem BinaryOp.value?_opposite {op : BinaryOp} (h : op.isOpposite = true) {left right : Literal}
    (hord : op.Ordered (.literal left) (.literal right)) :
    op.value? left right = (op.direct.value? left right).bind UnaryOp.not.value? := by
  have hnumbers (x y : Float) (hop : op = .lessEqual ∨ op = .greaterEqual)
      (hx : left = .number x) (hy : right = .number y) : x.isNaN = false ∧ y.isNaN = false :=
    hord hop x y (by rw [hx]; rfl) (by rw [hy]; rfl)
  cases op with
  | notEqual => cases left <;> cases right <;> rfl
  | lessEqual =>
      cases left with
      | number x =>
          cases right with
          | number y =>
              obtain ⟨hx, hy⟩ := hnumbers x y (.inl rfl) rfl rfl
              exact congrArg (fun b => some (Literal.boolean b)) (Number.le_eq_not_lt hx hy)
          | _ => rfl
      | boolean a => cases right <;> rfl
      | text s => cases right <;> rfl
  | greaterEqual =>
      cases left with
      | number x =>
          cases right with
          | number y =>
              obtain ⟨hx, hy⟩ := hnumbers x y (.inr rfl) rfl rfl
              exact congrArg (fun b => some (Literal.boolean b)) (Number.le_eq_not_lt hy hx)
          | _ => rfl
      | boolean a => cases right <;> rfl
      | text s => cases right <;> rfl
  | _ => cases h

theorem BinaryOp.boolean_of_value? {op : BinaryOp} (h : op.isOpposite = true)
    {left right value : Literal} (hvalue : op.direct.value? left right = some value) :
    ∃ b, value = .boolean b := by
  cases op with
  | notEqual | lessEqual | greaterEqual =>
      cases left <;> cases right <;> cases hvalue <;> exact ⟨_, rfl⟩
  | _ => cases h

section Operators

variable {o : Options} (ho : o.foldConstants = true)

include ho

theorem UnaryOp.apply_eq (op : UnaryOp) (p : Param) (loc : Location) :
    op.apply o p loc = (p.literal?.bind op.value?).elim (op.block p) .literal := by
  rw [apply, foldParam?, if_pos ho]
  cases p.literal? with
  | none => rfl
  | some value =>
      simp only [Option.bind_some, toOption_fold]
      cases op.value? value <;> rfl

theorem BinaryOp.apply_eq (op : BinaryOp) (p q : Param) (loc : Location) :
    op.apply o p q loc = (p.literal?.bind fun x => q.literal?.bind fun y => op.value? x y).elim
      (op.block p q) .literal := by
  rw [apply, foldParams?, if_pos ho]
  cases p.literal? with
  | none => rfl
  | some x =>
      cases q.literal? with
      | none => rfl
      | some y =>
          simp only [Option.bind_some, toOption_fold]
          cases op.value? x y <;> rfl

end Operators

-- A block that is not an operator stays, with the pass on its parameters.
theorem Param.folded_reporter {opcode : Opcode} (hop : opcode.operator? = none)
    (hnot : opcode ≠ .not) (ps : List Param) :
    (Param.block (.mk opcode ps)).folded = .block (.mk opcode (Param.foldedAll ps)) := by
  have hvalue : (Block.mk opcode (Param.foldedAll ps)).evaluate? = none := by
    unfold Block.evaluate?
    split <;> simp [Block.opcode, hop, hnot]
  rw [Param.folded, Block.folded, hvalue]
  rfl

-- A block with two operands after the pass.
theorem Param.folded_binary {opcode : Opcode} {op : BinaryOp} (h : opcode.operator? = some op)
    (p q : Param) :
    (Param.block (.mk opcode [p, q])).folded =
      (p.folded.literal?.bind fun x => q.folded.literal?.bind fun y => op.value? x y).elim
        (.block (.mk opcode [p.folded, q.folded])) .literal := by
  simp only [Param.folded, Block.folded, Param.foldedAll]
  cases p.folded <;> cases q.folded <;> simp [Block.evaluate?, Block.params, Block.opcode, h, literal?]

theorem Param.folded_not (p : Param) :
    (Param.block (.mk .not [p])).folded =
      (p.folded.literal?.bind UnaryOp.not.value?).elim (.block (.mk .not [p.folded])) .literal := by
  simp only [Param.folded, Block.folded, Param.foldedAll]
  cases p.folded <;> simp [Block.evaluate?, Block.params, Block.opcode, literal?]

theorem UnaryOp.folded_block {o : Options} (ho : o.foldConstants = true) (op : UnaryOp) (p : Param)
    (loc : Location) : (op.block p).folded = op.apply o p.folded loc := by
  rw [op.apply_eq ho]
  cases op with
  | not => exact Param.folded_not p
  | minus =>
      -- the block subtracts from zero, and so does the operator
      have hzero (x : Literal) : BinaryOp.subtract.value? (.number 0.0) x = UnaryOp.minus.value? x := by
        cases x <;> rfl
      exact (Param.folded_binary rfl _ _).trans (by
        simp only [Param.number, Param.folded, Param.literal?, Option.bind_some, hzero]
        rfl)

theorem BinaryOp.folded_block {o : Options} (ho : o.foldConstants = true) (op : BinaryOp)
    (p q : Param) (loc : Location) (hord : op.Ordered p.folded q.folded) :
    (op.block p q).folded = op.apply o p.folded q.folded loc := by
  rw [op.apply_eq ho]
  have hdirect := Param.folded_binary op.operator?_opcode p q
  cases hopp : op.isOpposite with
  | false =>
      simp only [block, hopp, Bool.false_eq_true, if_false, Block.make]
      rw [hdirect, direct_eq hopp]
  | true =>
      simp only [block, hopp, if_true, Block.make]
      rw [Param.folded_not, hdirect]
      cases hp : p.folded with
      | literal x =>
          cases hq : q.folded with
          | literal y =>
              rw [hp, hq] at hord
              simp only [Param.literal?, Option.bind_some, value?_opposite hopp hord]
              cases hvalue : op.direct.value? x y with
              | none => rfl
              | some value =>
                  obtain ⟨b, rfl⟩ := boolean_of_value? hopp hvalue
                  rfl
          | _ => rfl
      | _ => rfl

namespace Stack

variable (list : String) (depth size : Nat)

theorem folded_length : (length list).folded = length list :=
  Param.folded_reporter rfl (by decide) _

theorem folded_behindEnd :
    (Param.block (.make .subtract [length list, .number (Float.ofNat depth)])).folded =
      .block (.make .subtract [length list, .number (Float.ofNat depth)]) := by
  have hop : Opcode.subtract.operator? = some .subtract := rfl
  have hfolded := Param.folded_binary hop (length list) (.number (Float.ofNat depth))
  rw [folded_length] at hfolded
  exact hfolded

-- Where locals are found on the stack does not change.
theorem folded_slotIndex : (slotIndex list depth).folded = slotIndex list depth := by
  unfold slotIndex
  split
  · rfl
  · exact folded_behindEnd list depth

theorem folded_itemIndex (index : Param) :
    (itemIndex list depth size index).folded = itemIndex list depth size index.folded := by
  have hop : Opcode.add.operator? = some .add := rfl
  have hfolded := Param.folded_binary hop
    (.block (.make .subtract [length list, .number (Float.ofNat (depth + size))])) index
  rw [folded_behindEnd] at hfolded
  exact hfolded

theorem folded_read (index : Param) : (read list index).folded = read list index.folded :=
  Param.folded_reporter rfl (by decide) _

theorem folded_release (slots : Nat) : (release list slots).folded = release list slots := by
  unfold release
  split <;> rfl

end Stack

end SpriteCompiler
