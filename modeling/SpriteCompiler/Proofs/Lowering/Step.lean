import SpriteCompiler.Lowering.Stmt
import Mathlib.Tactic

namespace SpriteCompiler

-- A session without its log.
structure Core where
  scopes : ScopeTree
  diagnostics : List Diagnostic
  pendingSlots : Nat
  muted : Bool

def Session.core (s : Session) : Core :=
  ⟨s.scopes, s.report.diagnostics, s.pendingSlots, s.muted⟩

-- No declaration is under way.
structure Session.Idle (s : Session) : Prop where
  nothing_pending : s.pendingSlots = 0
  not_muted : s.muted = false

theorem Session.idle_of_core {s : Session} {c : Core} (h : s.core = c) (hp : c.pendingSlots = 0)
    (hm : c.muted = false) : s.Idle := by
  subst h
  exact ⟨hp, hm⟩

namespace Core

def reported (c : Core) (ds : List Diagnostic) : Core :=
  if c.muted then c else { c with diagnostics := c.diagnostics ++ ds }

variable (c : Core) (ds ds' : List Diagnostic)

@[simp] theorem reported_scopes : (c.reported ds).scopes = c.scopes := by
  unfold reported; split <;> rfl

@[simp] theorem reported_pendingSlots : (c.reported ds).pendingSlots = c.pendingSlots := by
  unfold reported; split <;> rfl

@[simp] theorem reported_muted : (c.reported ds).muted = c.muted := by
  unfold reported; split <;> rfl

@[simp] theorem reported_nil : c.reported [] = c := by
  unfold reported; split <;> simp

theorem reported_of_not_muted {c : Core} (h : c.muted = false) (ds : List Diagnostic) :
    c.reported ds = { c with diagnostics := c.diagnostics ++ ds } := by
  simp only [reported, h, Bool.false_eq_true, if_false]

@[simp] theorem reported_append : c.reported (ds ++ ds') = (c.reported ds).reported ds' := by
  unfold reported
  split
  · rfl
  · simp

end Core

namespace Lower

theorem run_bind {α β : Type} {x : Lower α} {f : α → Lower β} {a : α} {s s' : Session}
    (h : x s = (.ok a, s')) : (x >>= f) s = f a s' := by
  simp only [Bind.bind, ExceptT.bind, ExceptT.mk, StateT.bind, h]
  rfl

theorem run_bind_error {α β : Type} {x : Lower α} {f : α → Lower β} {e : Fault} {s s' : Session}
    (h : x s = (.error e, s')) : (x >>= f) s = (.error e, s') := by
  simp only [Bind.bind, ExceptT.bind, ExceptT.mk, StateT.bind, h]
  rfl

theorem exists_of_bind {α β : Type} {x : Lower α} {f : α → Lower β} {b : β} {s s' : Session}
    (h : (x >>= f) s = (.ok b, s')) : ∃ a s₁, x s = (.ok a, s₁) ∧ f a s₁ = (.ok b, s') := by
  rcases hx : x s with ⟨result, s₁⟩
  cases result with
  | error e =>
      rw [run_bind_error hx] at h
      cases h
  | ok a =>
      rw [run_bind hx] at h
      exact ⟨a, s₁, rfl, h⟩

-- Run in a session with contents `c`, the step gives `a` and leaves contents `c'`.
def Gives {α : Type} (x : Lower α) (c : Core) (a : α) (c' : Core) : Prop :=
  ∀ s : Session, s.core = c → ∃ s', x s = (.ok a, s') ∧ s'.core = c'

namespace Gives

variable {α β : Type} {c d e : Core} {a : α} {b : β}

theorem pure (a : α) (c : Core) : Gives (pure a) c a c :=
  fun s hs => ⟨s, rfl, hs⟩

theorem bind {x : Lower α} {f : α → Lower β} (hx : Gives x c a d) (hf : Gives (f a) d b e) :
    Gives (x >>= f) c b e := by
  intro s hs
  obtain ⟨s', hx, hs'⟩ := hx s hs
  obtain ⟨s'', hf, hs''⟩ := hf s' hs'
  exact ⟨s'', (run_bind hx).trans hf, hs''⟩

-- The rest of a step may look at the session, of which only the contents are known.
theorem get_bind {f : Session → Lower β} (hf : ∀ s : Session, s.core = c → Gives (f s) c b d) :
    Gives (get >>= f) c b d :=
  fun s hs => hf s hs s hs

theorem modify {f : Session → Session} (hf : ∀ s : Session, s.core = c → (f s).core = d) :
    Gives (modify f) c () d :=
  fun s hs => ⟨f s, rfl, hf s hs⟩

theorem modify_bind {f : Session → Session} {g : Lower β}
    (hf : ∀ s : Session, s.core = c → (f s).core = d) (hg : Gives g d b e) :
    Gives (do MonadState.modifyGet fun s => ((), f s); g) c b e :=
  bind (modify hf) hg

end Gives

variable {c : Core}

theorem gives_report (d : Diagnostic) (c : Core) : Gives (report d) c () (c.reported [d]) := by
  refine Gives.modify fun s hs => ?_
  subst hs
  cases hm : s.muted <;> simp [Session.core, Core.reported, hm, Report.addLog, Report.addDiagnostic]

theorem gives_trace (text : String) (c : Core) : Gives (trace text) c () c :=
  Gives.modify fun _ hs => hs

theorem gives_traceRelease (locals : List Local) (c : Core) : Gives (traceRelease locals) c () c := by
  unfold traceRelease
  split
  · exact gives_trace _ c
  · exact Gives.pure () c

theorem gives_forM_traceRelease {α : Type} (f : α → List Local) (xs : List α) (c : Core) :
    Gives (xs.forM fun x => traceRelease (f x)) c () c := by
  induction xs with
  | nil => exact Gives.pure () c
  | cons x xs ih => exact (gives_traceRelease (f x) c).bind ih

theorem ask_eq {α : Type} {question : ScopeTree → Except MissingScope α} {a : α} {s : Session}
    (h : question s.scopes = .ok a) : ask question s = (.ok a, s) := by
  rw [ask, run_bind (show (get : Lower Session) s = (.ok s, s) from rfl), h]
  rfl

theorem ask_missing {α : Type} {question : ScopeTree → Except MissingScope α}
    {missing : MissingScope} {s : Session} (h : question s.scopes = .error missing) :
    ask question s = (.error (.noSuchScope missing.id), s) := by
  rw [ask, run_bind (show (get : Lower Session) s = (.ok s, s) from rfl), h]
  rfl

theorem gives_ask {α : Type} {question : ScopeTree → Except MissingScope α} {a : α}
    (h : question c.scopes = .ok a) : Gives (ask question) c a c := by
  intro s hs
  have hscopes : s.scopes = c.scopes := congrArg Core.scopes hs
  exact ⟨s, ask_eq (hscopes ▸ h), hs⟩

theorem currentScope_eq {ctx : Context} {id : Nat} {s : Session} (hctx : ctx.scope = some id)
    (hid : id < s.scopes.size) : currentScope ctx s = (.ok id, s) := by
  simp only [currentScope, hctx]
  change (if id < s.scopes.size then pure id else throw (.noSuchScope id) : Lower Nat) s = _
  rw [if_pos hid]
  rfl

theorem gives_currentScope {ctx : Context} {id : Nat} (hctx : ctx.scope = some id)
    (hid : id < c.scopes.size) : Gives (currentScope ctx) c id c := by
  intro s hs
  have hscopes : s.scopes = c.scopes := congrArg Core.scopes hs
  exact ⟨s, currentScope_eq hctx (hscopes ▸ hid), hs⟩

end Lower

end SpriteCompiler
