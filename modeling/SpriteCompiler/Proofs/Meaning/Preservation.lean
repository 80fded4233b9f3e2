import SpriteCompiler.Proofs.Lowering.Realize
import SpriteCompiler.Proofs.Meaning.Datum
import SpriteCompiler.Proofs.Meaning.Range
import SpriteCompiler.Proofs.Meaning.Simulation

namespace SpriteCompiler

namespace Method

variable {V : Type} (m : Method) (I : Interpretation V) (o : Options) (ctx : Context)

-- A method that runs with these arguments, where the lists hold these items.
def activation (arguments : String → V) (lists : String → List V)
    (stray : Store V → List V → String → V → V) : Activation V where
  interp := I
  names := ctx.outer? (some m)
  result := o.returnVariable m.name
  arguments := arguments
  lists := lists
  stray := stray

-- Blocks mean what a method means. Whatever they start with, they end as the method ends, with the
-- same values in all variables and with all lists as they were; and if a loop is cut off, they are
-- cut off in the same round, with the locals of the method on the stack. Where the method reads
-- beside a local array, the blocks read something, and there is no more to say.
def Means (blocks : List Block) : Prop :=
  ∀ (arguments : String → V) (start : Memory V), ∃ stray, ∀ n,
    let A := m.activation I o ctx arguments start.lists stray
    Outcome.Related A.Ended A.Ended (A.Underway o) (A.runMethod n m start.globals)
      (Block.runAll I arguments n blocks start)

-- Where every index into a local array is in range, there is nothing to be left open.
theorem Means.of_inRange {m : Method} {I : Interpretation V} {o : Options} {ctx : Context}
    {blocks : List Block} (h : m.Means I o ctx blocks) (arguments : String → V) (start : Memory V)
    (stray : Store V → List V → String → V → V) (n : Nat)
    (hrange : (m.activation I o ctx arguments start.lists stray).MethodInRange n m start.globals) :
    let A := m.activation I o ctx arguments start.lists stray
    Outcome.Related A.Ended A.Ended (A.Underway o) (A.runMethod n m start.globals)
      (Block.runAll I arguments n blocks start) := by
  intro A
  obtain ⟨stray', hrelated⟩ := h arguments start
  have hrun : Outcome.Related A.Ended A.Ended (A.Underway o)
      ((A.withStray stray').runMethod n m start.globals) (Block.runAll I arguments n blocks start) :=
    hrelated n
  rwa [Activation.runMethod_withStray stray' hrange] at hrun

end Method

-- Without locals, the stack is as it was.
theorem Activation.Matches.ended {V : Type} {A : Activation V} {stackList : String} {s : Store V}
    {w : Memory V} (hw : A.Matches stackList [] [] s w) : A.Ended s w := by
  refine ⟨hw.globals, funext fun l => ?_⟩
  by_cases hl : l = stackList
  · have hframes : s.frames = [] := List.map_eq_nil_iff.mp hw.locals
    rw [hl, hw.stack, hframes]
    simp [Frames.stack]
  · exact hw.others l hl

theorem Method.means_plan {V : Type} {I : Interpretation V} (hI : I.Lawful) (o : Options)
    (ctx : Context) {m : Method} (hfits : m.Everywhere .slotsFit)
    (hsound : m.Everywhere (.sound I o (ctx.outer? (some m))))
    (hclean : (m.plan o ctx).problems = []) :
    m.Means I o ctx (Command.emitAll o (m.plan o ctx).code) := by
  intro arguments start
  let A := m.activation I o ctx arguments start.lists
    ((m.activation I o ctx arguments start.lists fun _ _ _ i => i).spill o.stackList)
  let root := (ScopeTree.createRoot { method := some m }).2
  refine ⟨A.stray, fun n => ?_⟩
  have hc : A.Compiles o (ctx.withScope 0) root := ⟨ctx.ready_createRoot m, rfl, rfl, rfl⟩
  have hstart : A.Matches o.stackList (root.frames 0) [] ⟨start.globals, [[]]⟩ start :=
    ⟨rfl, fun _ _ => rfl, by simp [A, activation, Frames.stack], rfl, by simp [Frames.Filled],
      Nat.two_pow_pos 32⟩
  have hext := Stmt.planAll_extends o hc.ready m.body
  have hframes := ScopeTree.frames_eq (hc.ready.lt_size.trans_le hext.grows.size_le)
  rw [hext.grows.outer_locals hc.ready.lt_size] at hframes
  have hbody := Activation.follows_planAll hI n m.body hc (hfits.and hsound) hclean hstart
  have hall : A.Follows o [] (A.runMethod n m start.globals)
      (Block.runAll I arguments n (Command.emitAll o (m.plan o ctx).code) start) := by
    rw [Method.plan, Command.emitAll_append, Block.runAll_append]
    refine Outcome.Related.bind hbody fun s w hw => ?_
    rw [hframes] at hw
    exact hw.leave hI _ _
  exact hall.mono fun s w hw => hw.ended

-- In the sample, no operator on which an interpretation might not agree is applied to literals.
theorem Method.sound_sample {V : Type} (I : Interpretation V) (o : Options)
    {names : String → Option Binding} (h : ∀ x l, names x ≠ some (.globalList l)) :
    Method.sample.Everywhere (.sound I o names) := by
  simp [Method.Everywhere, Method.sample, Stmt.EverywhereIn, Stmt.Everywhere, Stmt.declares,
    Demand.sound, Local.declareIn, Local.name, Local.initializers, Assignment.operand?, Expr.Sound,
    Expr.Apart, h]

-- A method that is compiled without a diagnostic means what its procedure means, under every
-- interpretation that keeps the laws, if the slots in scope can be counted in 32 bits.
theorem lowerMethod_preserves {V : Type} (I : Interpretation V) (hI : I.Lawful) (o : Options)
    (ctx : Context) (m : Method) (r : Report)
    (hfits : m.Everywhere .slotsFit) (hsound : m.Everywhere (.sound I o (ctx.outer? (some m))))
    (hclean : (lowerMethod o ctx m r).2.diagnostics = r.diagnostics) :
    ∃ p r', lowerMethod o ctx m r = (.ok p, r') ∧ m.Means I o ctx p.body := by
  obtain ⟨p, r', hlower, _, hbody, hdiagnostics⟩ := lowerMethod_eq o ctx m r
  have hproblems : (m.plan o ctx).problems = [] := by
    rw [hlower, hdiagnostics] at hclean
    simpa using hclean
  refine ⟨p, r', hlower, ?_⟩
  rw [hbody]
  exact Method.means_plan hI o ctx hfits hsound hproblems

theorem lowerMethod_preserves_sample :
    Interpretation.exact.Lawful ∧ Method.sample.Everywhere .slotsFit ∧
    Method.sample.Everywhere (.sound .exact {} (Context.sample.outer? (some Method.sample))) ∧
    (lowerMethod {} .sample .sample {}).2.diagnostics = [] ∧
    ∃ p r', lowerMethod {} .sample .sample {} = (.ok p, r') ∧
      Method.sample.Means .exact {} .sample p.body := by
  have hlists (x : String) (l : GlobalList) :
      Context.sample.outer? (some Method.sample) x ≠ some (.globalList l) := by
    cases hx : Method.sample.param? x <;>
      simp [Context.outer?, Context.sample, hx, Project.find?]
  have hsound := Method.sound_sample .exact {} hlists
  have hclean : (lowerMethod {} .sample .sample {}).2.diagnostics = [] := by decide +kernel
  exact ⟨Interpretation.lawful_exact, Method.slotsFit_sample, hsound, hclean,
    lowerMethod_preserves .exact Interpretation.lawful_exact {} .sample .sample {}
      Method.slotsFit_sample hsound hclean⟩

end SpriteCompiler
