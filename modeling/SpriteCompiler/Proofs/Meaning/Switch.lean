import SpriteCompiler.Proofs.Block.Grammar
import SpriteCompiler.Proofs.Block.Reference
import SpriteCompiler.Proofs.Lowering.Realize
import SpriteCompiler.Proofs.Meaning.Datum
import SpriteCompiler.Proofs.Meaning.Runner
import SpriteCompiler.Proofs.Program.Everywhere

namespace SpriteCompiler

-- A case after it was compiled. Conditions that are not there are those of a default at the end.
structure Arm where
  conditions : Option (List Param)
  body : List Block
  loc : Location

-- The cases are compiled one after the other: the conditions of each, and its body in a scope of its
-- own.
inductive Lower.Arms (o : Options) (ctx : Context) :
    List Case → Session → List Arm → Session → Prop where
  | nil (s : Session) : Arms o ctx [] s [] s
  | default {conditions : List Expr} {body : List Stmt} {loc : Location} {blocks : List Block}
      {s s' : Session}
      (hbody : nested o ctx (fun inner => stmts o inner body) s = (.ok blocks, s')) :
      Arms o ctx [.mk conditions body true loc] s [⟨none, blocks, loc⟩] s'
  | case {conditions : List Expr} {body : List Stmt} {isDefault : Bool} {loc : Location}
      {rest : List Case} {ps : List Param} {blocks : List Block} {arms : List Arm}
      {s s₁ s₂ s' : Session} (htested : (rest.isEmpty && isDefault) = false)
      (hconditions : conditions.mapM (expr o ctx) s = (.ok ps, s₁))
      (hbody : nested o ctx (fun inner => stmts o inner body) s₁ = (.ok blocks, s₂))
      (hrest : Arms o ctx rest s₂ arms s') :
      Arms o ctx (.mk conditions body isDefault loc :: rest) s (⟨some ps, blocks, loc⟩ :: arms) s'

-- Tests the cases in order and runs the body of the first that applies.
def Runner.runFirst {σ : Type} (R : Runner σ) : List Arm → σ → Outcome σ
  | [], w => .next w
  | ⟨none, body, _⟩ :: _, w => R.run body w
  | ⟨some ps, body, _⟩ :: rest, w =>
    Outcome.given (R.testAll ps w) fun r => if r.1 then R.run body r.2 else R.runFirst rest r.2

def Opcode.isConditional : Opcode → Bool
  | .ifThen | .ifThenElse => true
  | _ => false

-- The number of conditional blocks, at every depth.
def Block.conditionals (blocks : List Block) : Nat :=
  (Block.partsAll blocks).countP (·.opcode.isConditional)

-- The conditions are values.
def Arm.Fits (a : Arm) : Prop :=
  ∀ ps ∈ a.conditions, ∀ p ∈ ps, p.fits false

-- The blocks of a switch.
def Arm.chain (o : Options) : List Arm → List Block
  | [] => []
  | ⟨none, body, _⟩ :: _ => body
  | ⟨some ps, body, loc⟩ :: rest =>
    let condition := Lower.conjunction o loc ps
    if rest.isEmpty then [.make .ifThen [condition, .body body]]
    else [.make .ifThenElse [condition, .body body, .body (chain o rest)]]

namespace Lower

-- Every result of the step is a value.
def GivesValue (x : Lower Param) : Prop :=
  ∀ s p s', x s = (.ok p, s') → p.fits false

theorem GivesValue.pure {p : Param} (h : p.fits false) : GivesValue (pure p) := by
  intro s p' s' hrun
  cases hrun
  exact h

theorem GivesValue.bind {α : Type} {x : Lower α} {f : α → Lower Param}
    (hf : ∀ a, GivesValue (f a)) : GivesValue (x >>= f) := by
  intro s p s' hrun
  obtain ⟨a, s₁, -, hrun⟩ := exists_of_bind hrun
  exact hf a s₁ p s' hrun

-- Of a value the rest of a step can make use.
theorem GivesValue.bind_value {x : Lower Param} {f : Param → Lower Param} (hx : GivesValue x)
    (hf : ∀ p, p.fits false → GivesValue (f p)) : GivesValue (x >>= f) := by
  intro s p s' hrun
  obtain ⟨q, s₁, hq, hrun⟩ := exists_of_bind hrun
  exact hf q (hx s q s₁ hq) s₁ p s' hrun

theorem givesValue_placeholder (d : Diagnostic) : GivesValue (placeholder d) :=
  GivesValue.bind fun _ => GivesValue.pure rfl

theorem givesValue_lookup (o : Options) (ctx : Context) (x : String) (loc : Location) :
    GivesValue (lookup o ctx x loc) := by
  refine GivesValue.bind fun b => ?_
  cases b with
  | none => exact GivesValue.bind fun _ => GivesValue.pure rfl
  | some b =>
      cases b with
      | constant c => exact GivesValue.pure (Param.fits_literal _ _)
      | globalVariable v => exact GivesValue.pure (Param.fits_reporter rfl (by simp) rfl)
      | globalList l => exact GivesValue.pure (Param.fits_reporter rfl (by simp) rfl)
      | parameter p => exact GivesValue.pure (Param.fits_reporter rfl (by simp) rfl)
      | localVariable v =>
          by_cases hv : v.slots = 1
          · simp only [hv, if_true]
            exact GivesValue.bind fun depth =>
              GivesValue.pure (Stack.fits_read _ (Stack.fits_slotIndex _ depth))
          · simp only [hv, if_false]
            exact givesValue_placeholder _
      | localArray a => exact givesValue_placeholder _
      | method m => exact givesValue_placeholder _

theorem givesValue_expr (o : Options) (ctx : Context) (e : Expr) : GivesValue (expr o ctx e) := by
  induction e with
  | literal value _ => exact GivesValue.pure (Param.fits_literal _ _)
  | lookup x loc => exact givesValue_lookup o ctx x loc
  | item x index loc ih =>
      refine GivesValue.bind fun b => ?_
      cases b with
      | none => exact GivesValue.bind fun _ => GivesValue.pure rfl
      | some b =>
          cases b with
          | globalList l =>
              exact ih.bind_value fun _ hp =>
                GivesValue.pure (Param.fits_reporter rfl (by simp [hp]) rfl)
          | localArray a =>
              exact ih.bind_value fun _ hp => GivesValue.bind fun depth =>
                GivesValue.pure (Stack.fits_read _ (Stack.fits_itemIndex _ depth _ hp))
          | _ => exact givesValue_placeholder _
  | unary op operand loc ih =>
      exact ih.bind_value fun _ hp => GivesValue.pure (op.fits_apply o loc hp)
  | binary op left right loc ihl ihr =>
      exact ihl.bind_value fun _ hp => ihr.bind_value fun _ hq =>
        GivesValue.pure (op.fits_apply o loc hp hq)

theorem fits_of_mapM {o : Options} {ctx : Context} {es : List Expr} {ps : List Param}
    {s s' : Session} (h : es.mapM (expr o ctx) s = (.ok ps, s')) : ∀ p ∈ ps, p.fits false := by
  induction es generalizing s ps with
  | nil =>
      cases h
      intro p hp
      cases hp
  | cons e es ih =>
      rw [List.mapM_cons] at h
      obtain ⟨q, s₁, hq, h⟩ := exists_of_bind h
      obtain ⟨qs, s₂, hqs, h⟩ := exists_of_bind h
      cases h
      exact List.forall_mem_cons.mpr ⟨givesValue_expr o ctx e s q s₁ hq, ih hqs⟩

variable {o : Options} {ctx : Context} {cases : List Case} {arms : List Arm} {s s' : Session}

theorem Arms.length_eq (h : Arms o ctx cases s arms s') : arms.length = cases.length := by
  induction h with
  | nil s => rfl
  | default hbody => rfl
  | case htested hconditions hbody hrest ih => rw [List.length_cons, List.length_cons, ih]

theorem Arms.switch_eq (h : Arms o ctx cases s arms s') :
    switch o ctx cases s = (.ok (Arm.chain o arms), s') := by
  induction h with
  | nil s => rfl
  | default hbody =>
      rw [switch]
      exact hbody
  | @case conditions body isDefault loc rest ps blocks arms s s₁ s₂ s' htested hconditions hbody
      hrest ih =>
      have hempty : arms.isEmpty = rest.isEmpty := by
        rw [Bool.eq_iff_iff, List.isEmpty_iff_length_eq_zero, List.isEmpty_iff_length_eq_zero,
          hrest.length_eq]
      rw [switch, htested, if_neg (by decide), run_bind hconditions, run_bind hbody, Arm.chain,
        hempty]
      by_cases hlast : rest.isEmpty
      · obtain rfl := List.isEmpty_iff.mp hlast
        cases hrest
        rfl
      · simp only [hlast, Bool.false_eq_true, if_false]
        exact run_bind ih

-- Whatever the session, a switch is compiled case by case if it is compiled at all.
theorem exists_arms {blocks : List Block} (h : switch o ctx cases s = (.ok blocks, s')) :
    ∃ arms, Arms o ctx cases s arms s' ∧ ∀ a ∈ arms, a.Fits := by
  induction cases generalizing s blocks with
  | nil =>
      cases h
      exact ⟨[], .nil _, nofun⟩
  | cons case rest ih =>
      obtain ⟨conditions, body, isDefault, loc⟩ := case
      rw [switch] at h
      by_cases htested : (rest.isEmpty && isDefault) = true
      · rw [if_pos htested] at h
        obtain ⟨hrest, rfl⟩ := Bool.and_eq_true_iff.mp htested
        obtain rfl := List.isEmpty_iff.mp hrest
        refine ⟨_, .default h, fun a ha ps hps => ?_⟩
        obtain rfl := List.mem_singleton.mp ha
        cases hps
      · rw [if_neg htested] at h
        rw [Bool.not_eq_true] at htested
        obtain ⟨ps, s₁, hconditions, h⟩ := exists_of_bind h
        obtain ⟨body, s₂, hbody, h⟩ := exists_of_bind h
        have hothers : ∃ others, switch o ctx rest s₂ = (.ok others, s') := by
          by_cases hlast : rest.isEmpty
          · obtain rfl := List.isEmpty_iff.mp hlast
            cases h
            exact ⟨[], rfl⟩
          · rw [if_neg hlast] at h
            obtain ⟨others, s₃, hothers, h⟩ := exists_of_bind h
            cases h
            exact ⟨others, hothers⟩
        obtain ⟨others, hothers⟩ := hothers
        obtain ⟨arms, hrest, hfits⟩ := ih hothers
        refine ⟨_, .case htested hconditions hbody hrest, fun a ha qs hqs => ?_⟩
        obtain rfl | ha := List.mem_cons.mp ha
        · obtain rfl := Option.some.inj hqs
          exact fits_of_mapM hconditions
        · exact hfits a ha qs hqs

-- Every case but a default at the end has conditions.
theorem Arms.countP_conditions (h : Arms o ctx cases s arms s') :
    arms.countP (·.conditions.isSome) =
      if cases.getLast?.any Case.isDefault then cases.length - 1 else cases.length := by
  induction h with
  | nil s => rfl
  | default hbody => rfl
  | @case conditions body isDefault loc rest ps blocks arms s s₁ s₂ s' htested hconditions hbody
      hrest ih =>
      rw [List.countP_cons_of_pos rfl, ih]
      cases rest with
      | nil =>
          obtain rfl : isDefault = false := by simpa using htested
          rfl
      | cons c rest =>
          simp only [List.getLast?_cons_cons, List.length_cons]
          by_cases hdefault : (c :: rest).getLast?.any Case.isDefault
          · simp only [hdefault, if_true]
            omega
          · simp only [hdefault, Bool.false_eq_true, if_false]

end Lower

-- The blocks of a switch do what it says.
theorem Runner.Branching.run_chain {σ : Type} {R : Runner σ} (hR : R.Branching) (o : Options)
    (arms : List Arm) (w : σ) : R.run (Arm.chain o arms) w = R.runFirst arms w := by
  induction arms generalizing w with
  | nil => exact hR.nil w
  | cons a rest ih =>
      obtain ⟨conditions, body, loc⟩ := a
      cases conditions with
      | none => rfl
      | some ps =>
          rw [Arm.chain, Runner.runFirst, ← hR.test_conjunction o loc]
          by_cases hlast : rest.isEmpty
          · obtain rfl := List.isEmpty_iff.mp hlast
            exact hR.ifThen _ body w
          · rw [if_neg hlast, hR.ifThenElse]
            simp only [ih]

-- Values have no conditional blocks in them.

mutual

theorem Param.reporters_of_fits : ∀ p : Param, p.fits false → ∀ b ∈ p.parts, b.opcode.isReporter
  | .literal _, _, _, hb => by cases hb
  | .empty, _, _, hb => by cases hb
  | .body _, h, _, _ => by cases h
  | .block b, h, b', hb => by
      simp only [Param.fits, Bool.not_false, Bool.true_and, Bool.and_eq_true] at h
      exact Block.reporters_of_wellFormed b h.1 h.2 b' hb

theorem Block.reporters_of_wellFormed : ∀ b : Block, b.opcode.isReporter → b.wellFormed →
    ∀ b' ∈ b.parts, b'.opcode.isReporter
  | .mk op params, hop, h, b', hb => by
      rw [Block.wellFormed, Bool.and_eq_true] at h
      rw [Block.parts, List.mem_cons] at hb
      rcases hb with rfl | hb
      · exact hop
      · exact Param.reporters_of_allFit hop params 0 h.2 b' hb

theorem Param.reporters_of_allFit {op : Opcode} (hop : op.isReporter) : ∀ (ps : List Param)
    (index : Nat), Param.allFit op index ps → ∀ b ∈ Param.partsAll ps, b.opcode.isReporter
  | [], _, _, _, hb => by cases hb
  | p :: ps, index, h, b, hb => by
      have hcontrol := Opcode.not_isControl_of_isReporter hop
      rw [Param.allFit, Opcode.isBodyAt_of_not_isControl hcontrol, Bool.and_eq_true] at h
      rw [Param.partsAll, List.mem_append] at hb
      rcases hb with hb | hb
      · exact Param.reporters_of_fits p h.1 b hb
      · exact Param.reporters_of_allFit hop ps (index + 1) h.2 b hb

end

theorem Param.countP_conditional {p : Param} (h : p.fits false) :
    p.parts.countP (·.opcode.isConditional) = 0 := by
  rw [List.countP_eq_zero]
  intro b hb
  have hreporter := Param.reporters_of_fits p h b hb
  cases hop : b.opcode <;> simp_all [Opcode.isReporter, Opcode.isConditional]

theorem Lower.fits_conjunction (o : Options) (loc : Location) {ps : List Param}
    (h : ∀ p ∈ ps, p.fits false) : (conjunction o loc ps).fits false := by
  induction ps with
  | nil => rfl
  | cons p rest ih =>
      cases rest with
      | nil => exact h p (.head _)
      | cons q rest =>
          rw [conjunction]
          · exact BinaryOp.and.fits_apply o loc (h p (.head _)) (ih fun r hr => h r (.tail _ hr))
          · intro hnil
            cases hnil

theorem Block.conditionals_ifThen {p : Param} (hp : p.fits false) (body : List Block) :
    conditionals [.make .ifThen [p, .body body]] = 1 + conditionals body := by
  have hparts : partsAll [.make .ifThen [p, .body body]] =
      .mk .ifThen [p, .body body] :: (p.parts ++ partsAll body) := by
    simp only [make, partsAll, parts, Param.partsAll, Param.parts, List.append_nil]
  rw [conditionals, hparts, List.countP_cons_of_pos rfl, List.countP_append,
    Param.countP_conditional hp, Nat.zero_add, Nat.add_comm, conditionals]

theorem Block.conditionals_ifThenElse {p : Param} (hp : p.fits false) (body other : List Block) :
    conditionals [.make .ifThenElse [p, .body body, .body other]] =
      1 + (conditionals body + conditionals other) := by
  have hparts : partsAll [.make .ifThenElse [p, .body body, .body other]] =
      .mk .ifThenElse [p, .body body, .body other] ::
        (p.parts ++ (partsAll body ++ partsAll other)) := by
    simp only [make, partsAll, parts, Param.partsAll, Param.parts, List.append_nil]
  rw [conditionals, hparts, List.countP_cons_of_pos rfl, List.countP_append, List.countP_append,
    Param.countP_conditional hp, Nat.zero_add, Nat.add_comm, conditionals, conditionals]

-- Each case with conditions has one conditional block besides those of its body.
theorem Lower.Arms.conditionals_chain {o : Options} {ctx : Context} {cases : List Case}
    {arms : List Arm} {s s' : Session} (h : Arms o ctx cases s arms s') (hfits : ∀ a ∈ arms, a.Fits) :
    Block.conditionals (Arm.chain o arms) = arms.countP (·.conditions.isSome) +
      (arms.map fun a => Block.conditionals a.body).sum := by
  induction h with
  | nil s => rfl
  | default hbody => exact (Nat.zero_add _).symm
  | @case conditions body isDefault loc rest ps blocks arms s s₁ s₂ s' htested hconditions hbody
      hrest ih =>
      have hcondition := fits_conjunction o loc (hfits _ (.head _) ps rfl)
      have hothers := ih fun a ha => hfits a (.tail _ ha)
      rw [List.countP_cons_of_pos rfl, List.map_cons, List.sum_cons, Arm.chain]
      by_cases hlast : arms.isEmpty
      · obtain rfl := List.isEmpty_iff.mp hlast
        exact (Block.conditionals_ifThen hcondition blocks).trans (by simp)
      · rw [if_neg hlast, Block.conditionals_ifThenElse hcondition, hothers]
        simp only
        omega

-- Inside a method a switch is always compiled. Wherever it is, its blocks run the body of the first
-- case that applies, and after it no condition is tested. They have one conditional block for each
-- case, except for a default at the end.
theorem switch_runs_first_match (o : Options) (ctx : Context) (s : Session) (subject : Expr)
    (cases : List Case) (loc : Location) :
    (ctx.Ready s.scopes → s.Idle →
      ∃ blocks s', Lower.stmt o ctx (.switch subject cases loc) s = (.ok blocks, s')) ∧
    ∀ blocks s', Lower.stmt o ctx (.switch subject cases loc) s = (.ok blocks, s') →
      ∃ arms, Lower.Arms o ctx cases s arms s' ∧
        (∀ {σ : Type} {R : Runner σ}, R.Branching → ∀ w, R.run blocks w = R.runFirst arms w) ∧
        Block.conditionals blocks =
          (if cases.getLast?.any Case.isDefault then cases.length - 1 else cases.length) +
            (arms.map fun a => Block.conditionals a.body).sum := by
  constructor
  · intro hr hs
    obtain ⟨s', hrun, -⟩ := Lower.gives_stmt (c := s.core) o hr hs.not_muted hs.nothing_pending
      (.switch subject cases loc) s rfl
    exact ⟨_, s', hrun⟩
  · intro blocks s' hrun
    rw [Lower.stmt] at hrun
    obtain ⟨arms, harms, hfits⟩ := Lower.exists_arms hrun
    have hchain := harms.switch_eq
    rw [hrun] at hchain
    cases hchain
    refine ⟨arms, harms, fun hR w => hR.run_chain o arms w, ?_⟩
    rw [harms.conditionals_chain hfits, harms.countP_conditions]

-- A case whose second condition fails, one without conditions, and a default. Each returns a number of
-- its own.
def Case.numbered : List Case :=
  let at0 : Location := ⟨0, ⟨0, 0⟩⟩
  let holds (b : Bool) : Expr := .literal (.boolean b) at0
  let number (x : Float) : Stmt := .ret (some (.literal (.number x) at0)) at0
  [.mk [holds true, holds false] [number 1.0] false at0, .mk [] [number 2.0] false at0,
    .mk [] [number 3.0] true at0]

theorem switch_runs_first_match_numbered :
    (Context.sample.withScope 0).Ready Session.sample.scopes ∧ Session.sample.Idle ∧
    ∃ blocks s', Lower.stmt {} (Context.sample.withScope 0)
        (.switch (.literal (.text "") ⟨0, ⟨0, 0⟩⟩) Case.numbered ⟨0, ⟨0, 0⟩⟩) .sample =
          (.ok blocks, s') ∧
      (∀ arguments n w, Block.runAll .exact arguments n blocks w =
        .done (w.setVariable (Options.returnVariable {} "sample") (.known (.number 2.0)))) ∧
      Block.conditionals blocks = 2 := by
  have hs : Session.sample.Idle := ⟨rfl, rfl⟩
  obtain ⟨hcompiled, hmeans⟩ := switch_runs_first_match {} (Context.sample.withScope 0) .sample
    (.literal (.text "") ⟨0, ⟨0, 0⟩⟩) Case.numbered ⟨0, ⟨0, 0⟩⟩
  obtain ⟨blocks, s', hrun⟩ := hcompiled Session.ready_sample hs
  obtain ⟨arms, harms, hfirst, hcount⟩ := hmeans blocks s' hrun
  have hmachine (arguments n w) :=
    hfirst (Runner.branching_machine arguments n Interpretation.lawful_exact) w
  refine ⟨Session.ready_sample, hs, blocks, s', hrun, ?_⟩
  cases harms with
  | case htested hconditions hbody hrest =>
    cases hconditions
    cases hbody
    cases hrest with
    | case htested hconditions hbody hrest =>
      cases hconditions
      cases hbody
      cases hrest with
      | case htested _ _ _ => cases htested
      | default hbody =>
        cases hbody
        exact ⟨fun arguments n w => (hmachine arguments n w).trans rfl, hcount⟩

end SpriteCompiler
