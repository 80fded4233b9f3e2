import SpriteCompiler.Proofs.Code.Correspondence
import SpriteCompiler.Proofs.Lowering.Realize

namespace SpriteCompiler

-- Other names for the locals of a method leave the procedure that it is compiled to as it is. What is
-- reported stays the same in number and order, and each report keeps its kind, its location and the
-- earlier location it refers to: only the names that are spoken about change.
theorem lowerMethod_rename (o : Options) (ctx : Context) (m : Method) (r : Report)
    {ρ : String → String} (hρ : Function.Injective ρ)
    (hparams : ∀ p ∈ m.params, ρ p.name = p.name)
    (hsprite : ∀ s ∈ ctx.sprite, ∀ x ∈ s.names, ρ x = x)
    (hproject : ∀ x ∈ ctx.project.names, ρ x = x) :
    ∃ p r₁ r₂ ds₁ ds₂, lowerMethod o ctx m r = (.ok p, r₁) ∧
      lowerMethod o ctx (m.rename ρ) r = (.ok p, r₂) ∧
      r₁.diagnostics = r.diagnostics ++ ds₁ ∧ r₂.diagnostics = r.diagnostics ++ ds₂ ∧
      List.Forall₂ (fun d d' => d'.kind = d.kind ∧ d'.loc = d.loc ∧ d'.previous = d.previous ∧
        d.Renamed ρ d') ds₁ ds₂ := by
  have hfix : ∀ y ∈ ctx.outerNames (some m), ρ y = y := by
    intro y hy
    simp only [Context.outerNames, Option.elim_some, List.mem_append, List.mem_map] at hy
    rcases hy with (⟨p, hp, rfl⟩ | hy) | hy
    · exact hparams p hp
    · cases hs : ctx.sprite with
      | none => simp [hs] at hy
      | some s => exact hsprite s hs y (by simpa [hs] using hy)
    · exact hproject y hy
  have hroot := Context.paired_createRoot hρ ctx m (m.rename ρ) rfl rfl rfl hfix
  obtain ⟨hsame, g, hend⟩ := Stmt.planAll_same o hρ hroot Local.corresponds_nil m.body
  have hreleases := hend.releases_eq
  obtain ⟨r₁, hrun₁, hds₁⟩ := lowerMethod_run o ctx m r
  obtain ⟨r₂, hrun₂, hds₂⟩ := lowerMethod_run o ctx (m.rename ρ) r
  have hprocedure : (m.rename ρ).procedure o ctx = m.procedure o ctx := by
    have hblocks : Command.emitAll o ((m.rename ρ).plan o ctx).code =
        Command.emitAll o (m.plan o ctx).code := by
      rw [Method.plan, Method.plan, Command.emitAll_append, Command.emitAll_append]
      exact congrArg₂ (· ++ ·) hsame.blocks_eq (congrArg _ hreleases)
    rw [Method.procedure, hblocks]
    rfl
  rw [hprocedure] at hrun₂
  refine ⟨_, r₁, r₂, _, _, hrun₁, hrun₂, hds₁, hds₂, ?_⟩
  exact hsame.problems.imp fun d d' hd => ⟨hd.keeps.1, hd.keeps.2.1, hd.keeps.2.2, hd⟩

-- Locals `x` and `y` in two scopes, a second `x` beside the first, and a `y` that is not in scope.
def Method.misnamed : Method :=
  let at0 : Location := ⟨0, ⟨0, 0⟩⟩
  { name := "misnamed"
    returnType := some .number
    params := [⟨"n", .number, at0⟩]
    body := [
      .declare (.variable ⟨"x", .number, some (.lookup "n" at0), 1, at0⟩),
      .declare (.variable ⟨"x", .number, none, 2, at0⟩),
      .scope [
        .declare (.array ⟨"y", .number, [.lookup "x" at0, .lookup "n" at0], at0⟩),
        .assign "x" (.add (.item "y" (.lookup "x" at0) at0)) at0] at0,
      .ret (some (.lookup "y" at0)) at0]
    inline := false
    atomic := false
    isUnsafe := false
    loc := at0 }

-- With their names exchanged, the same is compiled and the same is wrong.
theorem lowerMethod_rename_misnamed :
    ∃ p r₁ r₂, lowerMethod {} .sample .misnamed {} = (.ok p, r₁) ∧
      lowerMethod {} .sample (Method.misnamed.rename (Equiv.swap "x" "y")) {} = (.ok p, r₂) ∧
      r₁.diagnostics.map (·.kind) = [.duplicateDeclaration, .notDefined] ∧
      r₂.diagnostics.map (·.kind) = [.duplicateDeclaration, .notDefined] := by
  obtain ⟨p, r₁, r₂, ds₁, ds₂, hrun₁, hrun₂, hds₁, hds₂, hsame⟩ :=
    lowerMethod_rename {} .sample .misnamed {} (Equiv.swap "x" "y").injective
      (by decide) (by simp [Context.sample]) (by simp [Context.sample, Project.names])
  have hkinds : ds₂.map (·.kind) = ds₁.map (·.kind) := by
    clear hds₁ hds₂
    induction hsame with
    | nil => rfl
    | cons h _ ih => rw [List.map_cons, List.map_cons, h.1, ih]
  have hfirst : r₁.diagnostics.map (·.kind) = [.duplicateDeclaration, .notDefined] := by
    obtain ⟨r, hrun, hds⟩ := lowerMethod_run {} .sample .misnamed {}
    rw [hrun₁] at hrun
    cases hrun
    rw [hds]
    decide +kernel
  refine ⟨p, r₁, r₂, hrun₁, hrun₂, hfirst, ?_⟩
  rw [← hfirst, hds₁, hds₂, List.map_append, List.map_append, hkinds]

end SpriteCompiler
