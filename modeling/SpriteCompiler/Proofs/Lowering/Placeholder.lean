import SpriteCompiler.Proofs.Code.Reference
import SpriteCompiler.Proofs.Lowering.Realize
import SpriteCompiler.Proofs.Program.Everywhere

namespace SpriteCompiler

-- A method is compiled to blocks with a placeholder in them, at any depth, only if a name is reported
-- that is not defined or is not used properly. Without any report there is no placeholder.
theorem lowerMethod_placeholder_reported (o : Options) (ctx : Context) (m : Method) (r : Report) :
    ∃ p r' ds, lowerMethod o ctx m r = (.ok p, r') ∧ r'.diagnostics = r.diagnostics ++ ds ∧
      ((∃ b ∈ Block.partsAll p.body, Param.empty ∈ b.params) →
        ∃ d ∈ ds, d.kind = .notDefined ∨ d.kind = .improperUsage) ∧
      (ds = [] → ∀ b ∈ Block.partsAll p.body, Param.empty ∉ b.params) := by
  obtain ⟨r', hrun, hproblems⟩ := lowerMethod_run o ctx m r
  let K : Reference → Prop := fun ref =>
    ref = .nothing → ∃ d ∈ (m.plan o ctx).problems, d.LeavesGap
  have hallows : ctx.Allows o K (some m) := by
    refine ⟨fun x b _ => ?_, fun _ _ _ => nofun⟩
    cases b <;> first | trivial | exact nofun
  have hexcuses : Excuses K (m.plan o ctx).problems := fun d hd hgap _ => ⟨d, hd, hgap⟩
  have hrefer := Method.plan_refersTo o hallows nofun hexcuses
  have hreported (h : ∃ b ∈ Block.partsAll (m.procedure o ctx).body, Param.empty ∈ b.params) :
      ∃ d ∈ (m.plan o ctx).problems, d.LeavesGap := by
    obtain ⟨b, hb, hempty⟩ := h
    exact (hrefer b hb).filled hempty rfl
  refine ⟨_, r', _, hrun, hproblems, hreported, fun hclean b hb hempty => ?_⟩
  obtain ⟨d, hd, _⟩ := hreported ⟨b, hb, hempty⟩
  rw [hclean] at hd
  exact List.not_mem_nil hd

-- A local of two slots that adds something unknown to one.
def Method.unknown : Method :=
  let at0 : Location := ⟨0, ⟨0, 0⟩⟩
  let sum : Expr := .binary .add (.lookup "y" at0) (.literal (.number 1.0) at0) at0
  { name := "unknown"
    returnType := none
    params := []
    body := [.declare (.variable ⟨"x", .number, some sum, 2, at0⟩)]
    inline := false
    atomic := false
    isUnsafe := false
    loc := at0 }

theorem lowerMethod_placeholder_reported_unknown :
    ∃ p r', lowerMethod {} .sample .unknown {} = (.ok p, r') ∧
      (∃ b ∈ Block.partsAll p.body, Param.empty ∈ b.params) ∧
      ∃ d ∈ r'.diagnostics, d.kind = .notDefined ∨ d.kind = .improperUsage := by
  obtain ⟨p, r', ds, hrun, hds, hreported, -⟩ :=
    lowerMethod_placeholder_reported {} .sample .unknown {}
  have hsum : ∃ b ∈ Block.partsAll p.body, Param.empty ∈ b.params := by
    obtain ⟨r'', hrun', -⟩ := lowerMethod_run {} .sample .unknown {}
    rw [hrun] at hrun'
    cases hrun'
    exact ⟨.mk .add [.empty, .number 1.0], .tail _ (.head _), .head _⟩
  obtain ⟨d, hd, hkind⟩ := hreported hsum
  exact ⟨p, r', hrun, hsum, d, by rw [hds]; exact hd, hkind⟩

end SpriteCompiler
