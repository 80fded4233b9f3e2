import SpriteCompiler.Proofs.Block.Folding
import SpriteCompiler.Proofs.Code.Dependence
import SpriteCompiler.Proofs.Lowering.Realize
import SpriteCompiler.Proofs.Program.Everywhere

namespace SpriteCompiler

namespace Options

-- The same options, with operators applied to literals at compile time and without.

def folding (o : Options) : Options :=
  { o with foldConstants := true }

def plain (o : Options) : Options :=
  { o with foldConstants := false }

end Options

namespace Operand

-- No `<=` or `>=` in the operand is applied to something that is not a number.
def Ordered (o : Options) : Operand → Prop
  | .item _ index | .element _ _ index => index.Ordered o
  | .unary _ operand _ => operand.Ordered o
  | .binary op left right _ =>
    left.Ordered o ∧ right.Ordered o ∧ op.Ordered (left.emit o) (right.emit o)
  | _ => True

theorem emit_folded (o : Options) {p : Operand} (h : p.Ordered o.folding) :
    p.emit o.folding = (p.emit o.plain).folded := by
  induction p with
  | literal value => rfl
  | empty => rfl
  | global name => rfl
  | contents list => rfl
  | param name kind => rfl
  | cell site =>
      simp only [emit, Stack.folded_read, Stack.folded_slotIndex]
      rfl
  | item list index ih =>
      have hfolded : (Param.block (.mk .itemOfList [index.emit o.plain, .text list])).folded =
          .block (.mk .itemOfList [(index.emit o.plain).folded, .text list]) :=
        Param.folded_reporter rfl (by decide) _
      rw [emit, emit, hfolded, ih h]
  | element site size index ih =>
      simp only [emit, Stack.folded_read, Stack.folded_itemIndex, ih h]
      rfl
  | unary op operand loc ih =>
      have hplain : op.apply o.plain (operand.emit o.plain) loc = op.block (operand.emit o.plain) :=
        rfl
      rw [emit, emit, hplain, op.folded_block (o := o.folding) rfl _ loc, ih h]
  | binary op left right loc ihl ihr =>
      obtain ⟨hleft, hright, hop⟩ := h
      have hplain : op.apply o.plain (left.emit o.plain) (right.emit o.plain) loc =
          op.block (left.emit o.plain) (right.emit o.plain) := rfl
      rw [ihl hleft, ihr hright] at hop
      rw [emit, emit, hplain, op.folded_block (o := o.folding) rfl _ _ loc hop, ihl hleft,
        ihr hright]

end Operand

namespace Command

mutual

-- The operands of a command, at every depth.
def operands : Command → List Operand
  | .push _ value | .store _ value | .setVariable _ value | .changeVariable _ value => [value]
  | .scope body | .forever body => operandsAll body
  | .repeatTimes value body | .repeatUntil value body | .ifThen value body =>
    value :: operandsAll body
  | .ifThenElse value body other => value :: (operandsAll body ++ operandsAll other)
  | .release _ | .stop => []

def operandsAll : List Command → List Operand
  | [] => []
  | c :: rest => c.operands ++ operandsAll rest

end

-- All comparisons in some code are of numbers.
def Ordered (o : Options) (code : List Command) : Prop :=
  ∀ p ∈ operandsAll code, p.Ordered o

mutual

theorem emit_folded (o : Options) : ∀ c : Command, (∀ p ∈ c.operands, p.Ordered o.folding) →
    c.emit o.folding = Block.foldedAll (c.emit o.plain)
  | .push _ value => fun h => by
      have hvalue := value.emit_folded o (h value (by simp [operands]))
      rw [emit, emit, hvalue]
      rfl
  | .release slots => fun _ => by
      rw [emit, emit, Block.foldedAll, Stack.folded_release]
      rfl
  | .store site value => fun h => by
      have hvalue := value.emit_folded o (h value (by simp [operands]))
      simp only [emit, hvalue, Stack.write, Block.make, Block.foldedAll, Block.folded,
        Param.foldedAll, Stack.folded_slotIndex]
      rfl
  | .setVariable _ value => fun h => by
      have hvalue := value.emit_folded o (h value (by simp [operands]))
      rw [emit, emit, hvalue]
      rfl
  | .changeVariable _ amount => fun h => by
      have hamount := amount.emit_folded o (h amount (by simp [operands]))
      rw [emit, emit, hamount]
      rfl
  | .scope body => fun h => emitAll_folded o body h
  | .repeatTimes count body => fun h => by
      have hcount := count.emit_folded o (h count (by simp [operands]))
      have hbody := emitAll_folded o body fun p hp => h p (by simp [operands, hp])
      rw [emit, emit, hcount, hbody]
      rfl
  | .repeatUntil condition body => fun h => by
      have hcondition := condition.emit_folded o (h condition (by simp [operands]))
      have hbody := emitAll_folded o body fun p hp => h p (by simp [operands, hp])
      rw [emit, emit, hcondition, hbody]
      rfl
  | .forever body => fun h => by
      have hbody := emitAll_folded o body h
      rw [emit, emit, hbody]
      rfl
  | .ifThen condition body => fun h => by
      have hcondition := condition.emit_folded o (h condition (by simp [operands]))
      have hbody := emitAll_folded o body fun p hp => h p (by simp [operands, hp])
      rw [emit, emit, hcondition, hbody]
      rfl
  | .ifThenElse condition body other => fun h => by
      have hcondition := condition.emit_folded o (h condition (by simp [operands]))
      have hbody := emitAll_folded o body fun p hp => h p (by simp [operands, hp])
      have hother := emitAll_folded o other fun p hp => h p (by simp [operands, hp])
      rw [emit, emit, hcondition, hbody, hother]
      rfl
  | .stop => fun _ => rfl

theorem emitAll_folded (o : Options) : ∀ code : List Command, Ordered o.folding code →
    emitAll o.folding code = Block.foldedAll (emitAll o.plain code)
  | [] => fun _ => rfl
  | c :: rest => fun h => by
      have hfirst := emit_folded o c fun p hp => h p (List.mem_append_left _ hp)
      have hrest := emitAll_folded o rest fun p hp => h p (List.mem_append_right _ hp)
      rw [emitAll, emitAll, Block.foldedAll_append, hfirst, hrest]

end

end Command

theorem Method.plan_folding (o : Options) (ctx : Context) (m : Method) :
    m.plan o.folding ctx = m.plan o.plain ctx := by
  have hsame : o.folding.SamePlans o.plain := ⟨rfl, rfl⟩
  exact m.plan_alike hsame (rfl : ctx.sprite = ctx.sprite) rfl

-- Where no `<=` or `>=` is applied to something that is not a number, a method compiled with
-- operators applied at compile time is the method compiled without, after the pass. The same is
-- reported in the same order. Both are written from one code, with the same instructions and bodies,
-- and with the same places for locals on the stack. Of the operators that could be applied none is
-- left.
theorem lowerMethod_folding_eq_pass (o : Options) (ctx : Context) (m : Method) (r : Report)
    (h : Command.Ordered o.folding (m.plan o.folding ctx).code) :
    ∃ p q r₁ r₂, lowerMethod o.folding ctx m r = (.ok p, r₁) ∧
      lowerMethod o.plain ctx m r = (.ok q, r₂) ∧
      p = { q with body := Block.foldedAll q.body } ∧
      r₁.diagnostics = r₂.diagnostics ∧
      Block.outlineAll p.body = Block.outlineAll q.body ∧
      (∃ code, p.body = Command.emitAll o.folding code ∧ q.body = Command.emitAll o.plain code) ∧
      (∀ depth, (Stack.slotIndex o.stackList depth).folded = Stack.slotIndex o.stackList depth) ∧
      (∀ depth size index, (Stack.itemIndex o.stackList depth size index).folded =
        Stack.itemIndex o.stackList depth size index.folded) ∧
      ∀ b ∈ Block.reportersAll p.body, b.evaluate? = none := by
  obtain ⟨r₁, hfolding, hproblems⟩ := lowerMethod_run o.folding ctx m r
  obtain ⟨r₂, hplain, hproblems'⟩ := lowerMethod_run o.plain ctx m r
  have hbody : (m.procedure o.folding ctx).body =
      Block.foldedAll (m.procedure o.plain ctx).body := by
    have hcode := Command.emitAll_folded o _ h
    rw [m.plan_folding] at hcode
    simp only [Method.procedure, m.plan_folding]
    exact hcode
  have hprocedure : m.procedure o.folding ctx =
      { m.procedure o.plain ctx with body := Block.foldedAll (m.procedure o.plain ctx).body } := by
    rw [← hbody]
    rfl
  refine ⟨_, _, r₁, r₂, hfolding, hplain, hprocedure, ?_, ?_, ⟨(m.plan o.plain ctx).code, ?_, rfl⟩,
    Stack.folded_slotIndex _, Stack.folded_itemIndex _, ?_⟩
  · rw [hproblems, hproblems', m.plan_folding]
  · rw [hbody, Block.outlineAll_folded]
  · rw [← m.plan_folding]
    rfl
  · rw [hbody]
    exact Block.evaluate?_of_mem_reportersAll _

-- A method in which operators are applied to literals, a `<=` among them, and one is not.
def Method.comparing : Method :=
  let at0 : Location := ⟨0, ⟨0, 0⟩⟩
  let number (x : Float) : Expr := .literal (.number x) at0
  { name := "comparing"
    returnType := none
    params := []
    body := [
      .declare (.variable ⟨"x", .number, some (.binary .add (number 1.0) (number 2.0) at0), 1, at0⟩),
      .branch (.binary .lessEqual (number 1.0) (number 2.0) at0)
        [.assign "x" (.subtract (number 1.0)) at0] [] at0,
      .branch (.binary .greaterEqual (.lookup "x" at0) (number 2.0) at0) [.ret none at0] [] at0]
    inline := false
    atomic := true
    isUnsafe := false
    loc := at0 }

theorem lowerMethod_folding_eq_pass_comparing :
    Command.Ordered (Options.folding {}) (Method.comparing.plan (Options.folding {}) .sample).code ∧
    ∃ p q r₁ r₂, lowerMethod (Options.folding {}) .sample .comparing {} = (.ok p, r₁) ∧
      lowerMethod (Options.plain {}) .sample .comparing {} = (.ok q, r₂) ∧
      p = { q with body := Block.foldedAll q.body } := by
  have hordered : Command.Ordered (Options.folding {})
      (Method.comparing.plan (Options.folding {}) .sample).code := by
    obtain ⟨site, site', hoperands⟩ : ∃ site site', Command.operandsAll
        (Method.comparing.plan (Options.folding {}) .sample).code =
          [.binary .add (.literal (.number 1.0)) (.literal (.number 2.0)) ⟨0, ⟨0, 0⟩⟩,
            .binary .lessEqual (.literal (.number 1.0)) (.literal (.number 2.0)) ⟨0, ⟨0, 0⟩⟩,
            .binary .add (.cell site) (.unary .minus (.literal (.number 1.0)) ⟨0, ⟨0, 0⟩⟩)
              ⟨0, ⟨0, 0⟩⟩,
            .binary .greaterEqual (.cell site') (.literal (.number 2.0)) ⟨0, ⟨0, 0⟩⟩] :=
      ⟨_, _, rfl⟩
    have hone : (1.0 : Float) ≠ Float.nan := by decide +kernel
    have htwo : (2.0 : Float) ≠ Float.nan := by decide +kernel
    rw [Command.Ordered, hoperands]
    simp [Operand.Ordered, BinaryOp.Ordered, Operand.emit, Param.number, Stack.read, hone, htwo]
  obtain ⟨p, q, r₁, r₂, hp, hq, hpass, _⟩ :=
    lowerMethod_folding_eq_pass {} .sample .comparing {} hordered
  exact ⟨hordered, p, q, r₁, r₂, hp, hq, hpass⟩

end SpriteCompiler
