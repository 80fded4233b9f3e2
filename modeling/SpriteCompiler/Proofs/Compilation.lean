import SpriteCompiler.Compilation
import SpriteCompiler.Proofs.Block.Grammar
import SpriteCompiler.Proofs.Lowering.Realize

namespace SpriteCompiler

namespace Reporting

-- The step gives a result from every report, and one of which `P` holds.
def Yields {α : Type} (x : Reporting α) (P : α → Prop) : Prop :=
  ∀ r : Report, ∃ a r', x r = (.ok a, r') ∧ P a

namespace Yields

variable {α β : Type} {P : α → Prop} {Q : β → Prop}

theorem pure {a : α} (h : P a) : Yields (pure a) P :=
  fun r => ⟨a, r, rfl, h⟩

theorem bind {x : Reporting α} {f : α → Reporting β} (hx : Yields x P)
    (hf : ∀ a, P a → Yields (f a) Q) : Yields (x >>= f) Q := by
  intro r
  obtain ⟨a, r', hx, ha⟩ := hx r
  obtain ⟨b, r'', hf, hb⟩ := hf a ha r'
  refine ⟨b, r'', ?_, hb⟩
  simp only [Bind.bind, ExceptT.bind, ExceptT.mk, StateT.bind, hx]
  exact hf

theorem modify (f : Report → Report) : Yields (modify f) fun _ => True :=
  fun r => ⟨(), f r, rfl, trivial⟩

theorem get : Yields get fun _ => True :=
  fun r => ⟨r, r, rfl, trivial⟩

theorem reportAll (ds : List Diagnostic) : Yields (ds.forM report) fun _ => True := by
  induction ds with
  | nil => exact pure trivial
  | cons d ds ih => exact (modify _).bind fun _ _ => ih

-- A step for each item gives a result for each item.
theorem mapM {f : α → Reporting β} {R : α → β → Prop} (hf : ∀ a, Yields (f a) (R a))
    (xs : List α) : Yields (xs.mapM f) (List.Forall₂ R xs) := by
  induction xs with
  | nil => exact pure List.Forall₂.nil
  | cons x xs ih =>
      rw [List.mapM_cons]
      exact (hf x).bind fun b hb => ih.bind fun bs hbs => pure (List.Forall₂.cons hb hbs)

end Yields

end Reporting

-- The procedure of a method, with a body that keeps to the grammar.
def Procedure.WellFormedFor (p : Procedure) (m : Method) : Prop :=
  p.name = m.name ∧ Block.isBody p.body

-- A procedure for each method, in order.
def SpriteOutput.WellFormedFor (out : SpriteOutput) (s : Sprite) : Prop :=
  out.name = s.name ∧ List.Forall₂ (fun m p => p.WellFormedFor m) s.methods out.procedures

open Reporting

variable (o : Options)

theorem lowerMethod_yields (ctx : Context) (m : Method) :
    Yields (lowerMethod o ctx m) fun p => p.WellFormedFor m := by
  intro r
  obtain ⟨p, r', hp, hname, hbody, _⟩ := lowerMethod_eq o ctx m r
  exact ⟨p, r', hp, hname, hbody ▸ Command.isBody_emitAll o _⟩

theorem compileSprite_yields (ctx : Context) (s : Sprite) :
    Yields (compileSprite o ctx s) fun out => out.WellFormedFor s :=
  (Yields.modify _).bind fun _ _ => (Yields.reportAll _).bind fun _ _ =>
    (Yields.mapM (lowerMethod_yields o (ctx.withSprite s)) s.methods).bind fun _ hps =>
      Yields.pure ⟨rfl, hps⟩

theorem compileApart_yields (p : Project) (s : Sprite) :
    Yields (compileApart o p s) fun out => out.WellFormedFor s := by
  intro r
  obtain ⟨out, own, hout, hs⟩ := compileSprite_yields o { project := p } s {}
  exact ⟨out, _, by rw [compileApart, hout], hs⟩

theorem procedures_compileStage (p : Project) : (compileStage o p).1.procedures = [] := by
  simp only [compileStage]
  cases p.hasMethods with
  | true => cases p.find? o.stackList <;> rfl
  | false => rfl

-- Compiling never fails: neither a method by itself, wherever it stands, nor a whole project. Every
-- method gets its procedure, and every block of it keeps to the grammar at every depth.
theorem compiles_to_wellFormed (o : Options) :
    (∀ (ctx : Context) (m : Method) (r : Report), ∃ p r',
      lowerMethod o ctx m r = (.ok p, r') ∧ p.WellFormedFor m) ∧
    (∀ (p : Project) (r : Report), ∃ c r', compile o p r = (.ok c, r') ∧
      c.stage.procedures = [] ∧
      List.Forall₂ (fun s (out : SpriteOutput) => out.WellFormedFor s) p.sprites c.sprites) := by
  refine ⟨fun ctx m => lowerMethod_yields o ctx m, fun p => ?_⟩
  have hcompile : Yields (compile o p) fun c => c.stage.procedures = [] ∧
      List.Forall₂ (fun s (out : SpriteOutput) => out.WellFormedFor s) p.sprites c.sprites :=
    (Yields.modify _).bind fun _ _ => (Yields.reportAll _).bind fun _ _ =>
      (Yields.mapM (compileApart_yields o p) p.sprites).bind fun _ hsprites =>
        Yields.get.bind fun _ _ => (Yields.modify _).bind fun _ _ =>
          Yields.pure ⟨procedures_compileStage o p, hsprites⟩
  exact hcompile

end SpriteCompiler
