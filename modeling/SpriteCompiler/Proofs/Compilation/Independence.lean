import SpriteCompiler.Compilation
import SpriteCompiler.Proofs.Code.Dependence
import SpriteCompiler.Proofs.Lowering.Realize
import SpriteCompiler.Proofs.Program.Everywhere

namespace SpriteCompiler

namespace Reporting

-- From every report, the step gives this result and adds these problems.
def Adds {α : Type} (x : Reporting α) (a : α) (ds : List Diagnostic) : Prop :=
  ∀ r : Report, ∃ r', x r = (.ok a, r') ∧ r'.diagnostics = r.diagnostics ++ ds

namespace Adds

variable {α β : Type} {a : α} {b : β} {ds es : List Diagnostic}

theorem pure (a : α) : Adds (pure a) a [] :=
  fun r => ⟨r, rfl, (List.append_nil _).symm⟩

theorem bind {x : Reporting α} {f : α → Reporting β} (hx : Adds x a ds) (hf : Adds (f a) b es) :
    Adds (x >>= f) b (ds ++ es) := by
  intro r
  obtain ⟨r', hx, hds⟩ := hx r
  obtain ⟨r'', hf, hes⟩ := hf r'
  refine ⟨r'', ?_, ?_⟩
  · simp only [Bind.bind, ExceptT.bind, ExceptT.mk, StateT.bind, hx]
    exact hf
  · rw [hes, hds, List.append_assoc]

-- Looking at the report adds nothing to it.
theorem get_bind {f : Report → Reporting β} (hf : ∀ r, Adds (f r) b es) : Adds (get >>= f) b es :=
  fun r => hf r r

theorem debug (text : String) : Adds (debug text) () [] :=
  fun r => ⟨r.addLog .debug text, rfl, (List.append_nil _).symm⟩

theorem reportAll (ds : List Diagnostic) : Adds (ds.forM report) () ds := by
  induction ds with
  | nil => exact pure ()
  | cons d ds ih =>
      have hreport : Adds (report d) () [d] := fun r => ⟨r.addDiagnostic d, rfl, rfl⟩
      exact hreport.bind ih

theorem mapM {f : α → Reporting β} {g : α → β} {h : α → List Diagnostic}
    (hf : ∀ a, Adds (f a) (g a) (h a)) (xs : List α) :
    Adds (xs.mapM f) (xs.map g) (xs.flatMap h) := by
  induction xs with
  | nil => exact pure []
  | cons x xs ih =>
      rw [List.mapM_cons, List.flatMap_cons, ← List.append_nil (xs.flatMap h)]
      exact (hf x).bind (ih.bind (pure _))

end Adds

end Reporting

open Reporting

namespace Sprite

-- Where the methods of a sprite are compiled.
def context (p : Project) (s : Sprite) : Context :=
  Context.withSprite { project := p } s

-- What a sprite reports by itself: the problems of its declarations, those of the variables for its
-- results, and those of each method compiled with nothing reported before it.
def reports (o : Options) (p : Project) (s : Sprite) : List Diagnostic :=
  let declared := ({} : UnitStorage).declareAll s.declarations
  declared.2 ++ (declared.1.addReturns o s.methods).2 ++
    s.methods.flatMap fun m => (lowerMethod o (s.context p) m {}).2.diagnostics

-- The output has the storage of the sprite, and for each method in order the procedure that the
-- method gives with nothing reported before it.
def MadeAlone (o : Options) (p : Project) (s : Sprite) (out : SpriteOutput) : Prop :=
  out = (s.storage o).1.output s.name out.procedures ∧
    List.Forall₂ (fun m q => (lowerMethod o (s.context p) m {}).1 = .ok q) s.methods
      out.procedures

-- What a sprite becomes.
def compiled (o : Options) (p : Project) (s : Sprite) : SpriteOutput :=
  (s.storage o).1.output s.name (s.methods.map (Method.procedure o (s.context p)))

end Sprite

variable (o : Options)

theorem lowerMethod_adds (ctx : Context) (m : Method) :
    Adds (lowerMethod o ctx m) (m.procedure o ctx) (m.plan o ctx).problems :=
  lowerMethod_run o ctx m

theorem lowerMethod_alone (ctx : Context) (m : Method) :
    (lowerMethod o ctx m {}).1 = .ok (m.procedure o ctx) ∧
      (lowerMethod o ctx m {}).2.diagnostics = (m.plan o ctx).problems := by
  obtain ⟨r', hrun, hproblems⟩ := lowerMethod_run o ctx m {}
  rw [hrun]
  exact ⟨rfl, by simpa using hproblems⟩

theorem Sprite.reports_eq (p : Project) (s : Sprite) :
    s.reports o p = (s.storage o).2 ++
      s.methods.flatMap fun m => (m.plan o (s.context p)).problems := by
  simp only [reports, (lowerMethod_alone o _ _).2]
  rfl

theorem Sprite.madeAlone_compiled (p : Project) (s : Sprite) :
    s.MadeAlone o p (s.compiled o p) := by
  refine ⟨rfl, ?_⟩
  simp only [compiled, UnitStorage.output, List.forall₂_map_right_iff]
  exact List.forall₂_same.mpr fun m _ => (lowerMethod_alone o _ m).1

theorem compileSprite_adds (p : Project) (s : Sprite) :
    Adds (compileSprite o { project := p } s) (s.compiled o p) (s.reports o p) := by
  have hmethods := Adds.mapM (lowerMethod_adds o (s.context p)) s.methods
  have hlist : s.reports o p = [] ++ ((s.storage o).2 ++
      ((s.methods.flatMap fun m => (m.plan o (s.context p)).problems) ++ [])) := by
    rw [s.reports_eq, List.nil_append, List.append_nil]
  rw [hlist]
  exact (Adds.debug _).bind ((Adds.reportAll _).bind (hmethods.bind (Adds.pure _)))

theorem compileApart_adds (p : Project) (s : Sprite) :
    Adds (compileApart o p s) (s.compiled o p) (s.reports o p) := by
  intro r
  obtain ⟨own, hown, hreports⟩ := compileSprite_adds o p s {}
  refine ⟨_, by rw [compileApart, hown], ?_⟩
  simp only [Report.append, Report.addLog, hreports, List.nil_append]

theorem compile_adds (p : Project) :
    Adds (compile o p) ⟨(compileStage o p).1, p.sprites.map (Sprite.compiled o p)⟩
      ((compileStage o p).2 ++ p.sprites.flatMap (Sprite.reports o p)) := by
  have hsprites := Adds.mapM (compileApart_adds o p) p.sprites
  have hlist : (compileStage o p).2 ++ p.sprites.flatMap (Sprite.reports o p) =
      [] ++ ((compileStage o p).2 ++ (p.sprites.flatMap (Sprite.reports o p) ++ ([] ++ []))) := by
    simp only [List.nil_append, List.append_nil]
  rw [hlist]
  exact (Adds.debug _).bind ((Adds.reportAll _).bind (hsprites.bind
    (Adds.get_bind fun r => (Adds.debug _).bind (Adds.pure _))))

-- A sprite sees the declarations of its project, and nothing else of it.
theorem Sprite.plan_of_declarations {p q : Project} (h : p.declarations = q.declarations)
    (s : Sprite) (m : Method) : m.plan o (s.context p) = m.plan o (s.context q) := by
  have hsprite : (s.context p).sprite = (s.context q).sprite := rfl
  have hproject : (s.context p).project.declarations = (s.context q).project.declarations := h
  exact m.plan_alike (.refl o) hsprite hproject

theorem Sprite.compiled_of_declarations {p q : Project} (h : p.declarations = q.declarations)
    (s : Sprite) : s.compiled o p = s.compiled o q := by
  have hprocedure : Method.procedure o (s.context p) = Method.procedure o (s.context q) := by
    funext m
    rw [Method.procedure, Method.procedure, s.plan_of_declarations o h]
  rw [compiled, compiled, hprocedure]

theorem Sprite.reports_of_declarations {p q : Project} (h : p.declarations = q.declarations)
    (s : Sprite) : s.reports o p = s.reports o q := by
  simp only [reports_eq, s.plan_of_declarations o h]

-- A project compiles to its parts: the problems are those of the stage and then those of each
-- sprite by itself, in order, and so are the outputs. And in two projects with the same declarations
-- a sprite becomes the same and reports the same, wherever it stands in them.
theorem compile_merges_parts (o : Options) :
    (∀ (p : Project) (r : Report), ∃ c r', compile o p r = (.ok c, r') ∧
      r'.diagnostics = r.diagnostics ++
        ((compileStage o p).2 ++ p.sprites.flatMap (Sprite.reports o p)) ∧
      c.stage = (compileStage o p).1 ∧
      List.Forall₂ (Sprite.MadeAlone o p) p.sprites c.sprites) ∧
    (∀ (p q : Project) (r₁ r₂ : Report), p.declarations = q.declarations →
      ∃ c d r₁' r₂', compile o p r₁ = (.ok c, r₁') ∧ compile o q r₂ = (.ok d, r₂') ∧
        ∀ (s : Sprite) (i j : Nat), p.sprites[i]? = some s → q.sprites[j]? = some s →
          (∃ out, c.sprites[i]? = some out ∧ d.sprites[j]? = some out) ∧
          s.reports o p = s.reports o q) := by
  constructor
  · intro p r
    obtain ⟨r', hrun, hreports⟩ := compile_adds o p r
    refine ⟨_, r', hrun, hreports, rfl, ?_⟩
    rw [List.forall₂_map_right_iff]
    exact List.forall₂_same.mpr fun s _ => s.madeAlone_compiled o p
  · intro p q r₁ r₂ h
    obtain ⟨r₁', hp, -⟩ := compile_adds o p r₁
    obtain ⟨r₂', hq, -⟩ := compile_adds o q r₂
    refine ⟨_, _, r₁', r₂', hp, hq, fun s i j hi hj => ⟨⟨s.compiled o p, ?_, ?_⟩, ?_⟩⟩
    · simp only [List.getElem?_map, hi, Option.map_some]
    · simp only [List.getElem?_map, hj, Option.map_some, s.compiled_of_declarations o h]
    · exact s.reports_of_declarations o h

-- A sprite with the sample method and one that must not return a value, and two projects that have
-- it in different company.
def Sprite.sample : Sprite :=
  ⟨"cat", [], [Method.sample, { Method.sample with name := "quiet", returnType := none }],
    ⟨0, ⟨0, 0⟩⟩⟩

def Project.alone : Project := ⟨"alone", [], [.sample]⟩

def Project.crowded : Project :=
  ⟨"crowded", [], [⟨"dog", [], [Method.sample, Method.sample], ⟨0, ⟨0, 0⟩⟩⟩, .sample]⟩

theorem compile_merges_parts_sample :
    Project.crowded.declarations = Project.alone.declarations ∧
    ∃ c d r₁ r₂, compile {} .crowded {} = (.ok c, r₁) ∧ compile {} .alone {} = (.ok d, r₂) ∧
      (∃ out, c.sprites[1]? = some out ∧ d.sprites[0]? = some out) ∧
      Sprite.sample.reports {} .crowded = Sprite.sample.reports {} .alone := by
  obtain ⟨c, d, r₁, r₂, hc, hd, hsame⟩ :=
    (compile_merges_parts {}).2 Project.crowded Project.alone {} {} rfl
  exact ⟨rfl, c, d, r₁, r₂, hc, hd, hsame .sample 1 0 rfl rfl⟩

end SpriteCompiler
