import SpriteCompiler.Proofs.Lowering.Realize
import SpriteCompiler.Proofs.Program.Everywhere

namespace SpriteCompiler

namespace Scope

-- Locals were added after those that were there.
structure Extends (s s' : Scope) : Prop where
  parent_eq : s'.parent = s.parent
  locals_prefix : s.locals <+: s'.locals

theorem Extends.of_eq {s s' : Scope} (h : s = s') : Extends s s' := by
  subst h
  exact ⟨rfl, List.prefix_rfl⟩

instance : IsTrans Scope Extends where
  trans _ _ _ h h' := ⟨h'.parent_eq.trans h.parent_eq, h.locals_prefix.trans h'.locals_prefix⟩

end Scope

namespace ScopeTree

variable {t t' t'' : ScopeTree} {id i j p : Nat} {l : Local} {own own' : Scope → Scope → Prop}

-- The way outward from scope `j` leads to scope `id`.
def Descends (t : ScopeTree) (j id : Nat) : Prop :=
  Relation.TransGen (fun child parent => t.parent? child = some parent) j id

theorem lt_size_of_parent? (h : t.parent? j = some p) : j < t.size := by
  obtain ⟨s, hs, -⟩ := Option.bind_eq_some_iff.mp h
  exact lt_size_of_get? hs

theorem Grows.descends (h : Grows t t' i) (hj : t.Descends j id) : t'.Descends j id := by
  refine Relation.TransGen.mono ?_ j id hj
  intro child p hp
  exact (h.parent_eq (lt_size_of_parent? hp)).trans hp

-- `t'` came from `t` by compiling inside scope `id`. What became of that scope is said by `own`,
-- every other scope is as it was, and the new ones lie inside it.
structure GrowsInside (own : Scope → Scope → Prop) (id : Nat) (t t' : ScopeTree) : Prop
    extends Grows t t' id where
  get?_eq : ∀ {j}, j < t.size → j ≠ id → t'.get? j = t.get? j
  own_scope : ∀ {s}, t.get? id = some s → ∃ s', t'.get? id = some s' ∧ own s s'
  descends : ∀ {j}, t.size ≤ j → j < t'.size → t'.Descends j id

namespace GrowsInside

theorem refl (id : Nat) (t : ScopeTree) : GrowsInside Eq id t t where
  toGrows := Grows.refl t id
  get?_eq _ _ := rfl
  own_scope hs := ⟨_, hs, rfl⟩
  descends hge hlt := absurd hlt (Nat.not_lt_of_le hge)

theorem mono (h : GrowsInside own id t t') (hown : ∀ {s s'}, own s s' → own' s s') :
    GrowsInside own' id t t' where
  toGrows := h.toGrows
  get?_eq := h.get?_eq
  own_scope hs := by
    obtain ⟨s', hs', hchanged⟩ := h.own_scope hs
    exact ⟨s', hs', hown hchanged⟩
  descends := h.descends

theorem trans [IsTrans Scope own] (h : GrowsInside own id t t') (h' : GrowsInside own id t' t'') :
    GrowsInside own id t t'' where
  toGrows := h.toGrows.trans h'.toGrows
  get?_eq hj hne := (h'.get?_eq (hj.trans_le h.size_le) hne).trans (h.get?_eq hj hne)
  own_scope hs := by
    obtain ⟨s', hs', hfirst⟩ := h.own_scope hs
    obtain ⟨s'', hs'', hsecond⟩ := h'.own_scope hs'
    exact ⟨s'', hs'', IsTrans.trans _ _ _ hfirst hsecond⟩
  descends {j} hge hlt := by
    by_cases hj : j < t'.size
    · exact h'.toGrows.descends (h.descends hge hj)
    · exact h'.descends (Nat.le_of_not_lt hj) hlt

-- A body is compiled in a new scope. Seen from outside, nothing that was there has changed.
theorem of_child (hid : id < t.size)
    (h : GrowsInside own t.size (t.child id) t') : GrowsInside Eq id t t' := by
  have hsize := child_size hid
  have hgrows := ((grows_child hid t.size).trans h.toGrows).of_new (Nat.le_refl _) id
  have hkept {j : Nat} (hj : j < t.size) : t'.get? j = t.get? j := by
    rw [h.get?_eq (by omega) (by omega), child_get? hid, if_neg (by omega)]
  have hchild : t'.parent? t.size = some id := by
    rw [h.parent_eq (by omega), child_parent? hid, if_pos rfl]
  refine ⟨hgrows, fun hj _ => hkept hj, fun hs => ⟨_, (hkept hid).trans hs, rfl⟩, ?_⟩
  intro j hge hlt
  by_cases hj : j = t.size
  · exact hj ▸ .single hchild
  · exact (h.descends (by omega) hlt).tail hchild

end GrowsInside

end ScopeTree

theorem Context.inScope_of_scope {ctx : Context} {t : ScopeTree} {id : Nat}
    (hctx : ctx.scope = some id) (hid : id < t.size) : ctx.InScope t := by
  have hhere : ctx.here = id := by rw [Context.here, hctx, Option.getD_some]
  exact ⟨Context.scope_eq_here hctx, hhere ▸ hid⟩

namespace Stmt

-- What a statement makes of the scope it stands in. Only the declaration of a name that is free
-- there adds to it.
inductive Updates : Stmt → Scope → Scope → Prop
  | declares {l : Local} {s s' : Scope} (name_free : ∀ l' ∈ s.locals, l'.name ≠ l.name)
      (parent_eq : s'.parent = s.parent) (locals_eq : s'.locals = s.locals ++ [l])
      (names_eq : s'.names = (l.name, s.locals.length) :: s.names) : Updates (.declare l) s s'
  | keeps {stmt : Stmt} {s : Scope}
      (no_news : ∀ l, stmt = .declare l → ∃ l' ∈ s.locals, l'.name = l.name) : Updates stmt s s

theorem Updates.extends {stmt : Stmt} {s s' : Scope} (h : stmt.Updates s s') : s.Extends s' := by
  cases h with
  | declares _ hparent hlocals _ => exact ⟨hparent, hlocals ▸ List.prefix_append _ _⟩
  | keeps _ => exact Scope.Extends.of_eq rfl

mutual

-- No return in the statement gives a value.
def ReturnsNothing : Stmt → Prop
  | .declare _ | .assign _ _ _ => True
  | .repeatLoop _ _ body _ | .whileLoop _ body _ | .forever body _ | .scope body _ =>
    AllReturnNothing body
  | .branch _ thenBody elseBody _ => AllReturnNothing thenBody ∧ AllReturnNothing elseBody
  | .switch _ cases _ => CasesReturnNothing cases
  | .ret value _ => value = none

def AllReturnNothing : List Stmt → Prop
  | [] => True
  | s :: rest => s.ReturnsNothing ∧ AllReturnNothing rest

def CasesReturnNothing : List Case → Prop
  | [] => True
  | .mk _ body _ _ :: rest => AllReturnNothing body ∧ CasesReturnNothing rest

end

end Stmt

-- A declaration changes the innermost scope, unless its name is taken there.
theorem Local.plan_growsInside {ctx : Context} {t : ScopeTree} (hr : ctx.InScope t) (l : Local) :
    t.GrowsInside (Stmt.declare l).Updates ctx.here (l.plan ctx t).scopes := by
  obtain ⟨t', hresult⟩ | ⟨d, hresult⟩ := ScopeTree.exists_declare hr.lt_size l
  · rw [Local.plan, hresult]
    change t.GrowsInside _ ctx.here t'
    have hdecl := ScopeTree.declared_of_declare hresult
    obtain ⟨s, s', hs, hnew, rfl⟩ := ScopeTree.set_of_declare hresult
    obtain ⟨-, hparent, hlocals, hnames⟩ := Scope.declare_ok hnew
    have hget := ScopeTree.get?_set hs hparent
    have hfree : ∀ l' ∈ s.locals, l'.name ≠ l.name := by
      simpa only [ScopeTree.locals, hs] using hdecl.name_free
    refine ⟨hdecl.grows, fun hj hne => ?_, fun hs₀ => ⟨s', ?_, ?_⟩, fun hge hlt => ?_⟩
    · rw [hget, if_neg hne]
    · rw [hget, if_pos rfl]
    · obtain rfl := Option.some.inj (hs.symm.trans hs₀)
      exact .declares hfree hparent hlocals hnames
    · have hsize := hdecl.size_eq
      omega
  · rw [Local.plan, hresult]
    obtain ⟨l', hl', hname⟩ := ScopeTree.name_taken_of_declare hresult
    have hsame := ScopeTree.GrowsInside.refl ctx.here t
    refine ⟨hsame.toGrows, hsame.get?_eq, fun {s} hs => ⟨s, hs, .keeps fun l₀ hl₀ => ?_⟩,
      hsame.descends⟩
    obtain rfl := Stmt.declare.inj hl₀
    exact ⟨l', by simpa only [ScopeTree.locals, hs] using hl', hname⟩

-- `s'` is a session between statements again, after compiling inside scope `id`.
structure Session.Reaches (own : Scope → Scope → Prop) (id : Nat) (s s' : Session) : Prop where
  idle : s'.Idle
  scopes : s.scopes.GrowsInside own id s'.scopes
  diagnostics : s.report.diagnostics <+: s'.report.diagnostics

-- A step that only reports something stays inside any scope.
theorem Session.reaches_of_core {s s' : Session} {ds : List Diagnostic} (hs : s.Idle)
    (h : s'.core = s.core.reported ds) (id : Nat) : s.Reaches Eq id s' := by
  rw [Core.reported_of_not_muted (show s.core.muted = false from hs.not_muted)] at h
  have hscopes : s'.scopes = s.scopes := congrArg Core.scopes h
  have hreport : s'.report.diagnostics = s.report.diagnostics ++ ds := congrArg Core.diagnostics h
  refine ⟨Session.idle_of_core h hs.nothing_pending hs.not_muted, ?_, ?_⟩
  · rw [hscopes]
    exact ScopeTree.GrowsInside.refl id _
  · rw [hreport]
    exact List.prefix_append _ _

namespace Lower

-- Between statements, the step does no more than may be done inside scope `id`, and leaves the
-- session between statements. It gives a result inside a method, and outside one if `plain` holds.
def StaysInside {α : Type} (x : Lower α) (own : Scope → Scope → Prop) (id : Nat) (plain : Prop) :
    Prop :=
  ∀ s : Session, s.Idle → id < s.scopes.size →
    s.Reaches own id (x s).2 ∧ (s.scopes.method.isSome ∨ plain → ∃ a, (x s).1 = .ok a)

namespace StaysInside

variable {α β : Type} {id : Nat} {own own' : Scope → Scope → Prop} {plain plain' : Prop}

theorem mono {x : Lower α} (h : StaysInside x own id plain)
    (hown : ∀ {s s'}, own s s' → own' s s') : StaysInside x own' id plain := by
  intro s hs hid
  obtain ⟨⟨hidle, hscopes, hreport⟩, hresult⟩ := h s hs hid
  exact ⟨⟨hidle, hscopes.mono hown, hreport⟩, hresult⟩

theorem imp {x : Lower α} (h : StaysInside x own id plain) (hplain : plain' → plain) :
    StaysInside x own id plain' := by
  intro s hs hid
  obtain ⟨hreach, hresult⟩ := h s hs hid
  exact ⟨hreach, fun hm => hresult (hm.imp_right hplain)⟩

theorem bind [IsTrans Scope own] {x : Lower α} {f : α → Lower β} (hx : StaysInside x own id plain)
    (hf : ∀ a, StaysInside (f a) own id plain) : StaysInside (x >>= f) own id plain := by
  intro s hs hid
  obtain ⟨hreach, hresult⟩ := hx s hs hid
  rcases hrun : x s with ⟨result, s₁⟩
  rw [hrun] at hreach hresult
  cases result with
  | error e =>
      -- The rest is not run, and what was done up to the fault stays inside.
      rw [run_bind_error hrun]
      refine ⟨hreach, fun hm => ?_⟩
      obtain ⟨a, ha⟩ := hresult hm
      cases ha
  | ok a =>
      rw [run_bind hrun]
      obtain ⟨hreach', hresult'⟩ := hf a s₁ hreach.idle (hid.trans_le hreach.scopes.size_le)
      rw [hreach.scopes.method_eq] at hresult'
      exact ⟨⟨hreach'.idle, hreach.scopes.trans hreach'.scopes,
        hreach.diagnostics.trans hreach'.diagnostics⟩, hresult'⟩

theorem updates {x : Lower α} {stmt : Stmt} (h : StaysInside x Eq id plain)
    (hstmt : ∀ l, stmt ≠ .declare l) : StaysInside x stmt.Updates id plain := by
  refine h.mono fun hsame => ?_
  subst hsame
  exact .keeps fun l hl => absurd hl (hstmt l)

end StaysInside

variable {α : Type} {ctx : Context} {id : Nat} {plain : Prop}

theorem staysInside_of_gives {x : Lower α}
    (h : ∀ s : Session, s.Idle → id < s.scopes.size →
      ∃ a ds, Gives x s.core a (s.core.reported ds)) : StaysInside x Eq id plain := by
  intro s hs hid
  obtain ⟨a, ds, hgives⟩ := h s hs hid
  obtain ⟨s', hrun, hcore⟩ := hgives s rfl
  rw [hrun]
  exact ⟨Session.reaches_of_core hs hcore id, fun _ => ⟨a, rfl⟩⟩

theorem staysInside_pure (a : α) : StaysInside (pure a) Eq id plain :=
  staysInside_of_gives fun s _ _ => ⟨a, [], by rw [Core.reported_nil]; exact Gives.pure a s.core⟩

theorem staysInside_cleanup (o : Options) : StaysInside (cleanup o id) Eq id plain :=
  staysInside_of_gives fun s _ hid =>
    ⟨_, [], by rw [Core.reported_nil]; exact gives_cleanup (c := s.core) o hid⟩

theorem staysInside_unroll (o : Options) (count : Expr) (body : List Block) :
    StaysInside (unroll o count body) Eq id plain :=
  staysInside_of_gives fun s _ _ => ⟨_, _, gives_unroll o count body s.core⟩

section Inside

variable (o : Options) (hctx : ctx.scope = some id)
include hctx

theorem staysInside_expr (e : Expr) : StaysInside (expr o ctx e) Eq id plain :=
  staysInside_of_gives fun s _ hid =>
    ⟨_, _, gives_expr (c := s.core) o (Context.inScope_of_scope hctx hid).within e⟩

theorem staysInside_values (es : List Expr) : StaysInside (es.mapM (expr o ctx)) Eq id plain := by
  refine staysInside_of_gives fun s hs hid => ?_
  have hmuted : s.core.muted = false := hs.not_muted
  have hin := Context.inScope_of_scope hctx hid
  have hvalues := gives_values o hin.within hmuted hs.nothing_pending es
  rw [← Core.reported_of_not_muted hmuted] at hvalues
  exact ⟨_, _, hvalues⟩

theorem staysInside_assign (x : String) (a : Assignment) (loc : Location) :
    StaysInside (assign o ctx x a loc) Eq id plain := by
  refine staysInside_of_gives fun s hs hid => ?_
  have hin := Context.inScope_of_scope hctx hid
  exact ⟨_, _, gives_assign (c := s.core) o hin.within hs.nothing_pending a loc⟩

-- Outside a method a return with a value is a fault, before anything is done.
theorem staysInside_ret (value : Option Expr) :
    StaysInside (ret o ctx value) Eq id (value = none) := by
  intro s hs hid
  have hin := Context.inScope_of_scope hctx hid
  by_cases hvalue : value.isSome → s.scopes.method.isSome
  · obtain ⟨s', hrun, hcore⟩ := gives_ret (c := s.core) o hin hs.nothing_pending value hvalue s rfl
    rw [hrun]
    exact ⟨Session.reaches_of_core hs hcore id, fun _ => ⟨_, rfl⟩⟩
  · obtain ⟨hsome, hmethod⟩ := Classical.not_imp.mp hvalue
    obtain ⟨e, rfl⟩ := Option.isSome_iff_exists.mp hsome
    have hnone : s.scopes.method = none := Option.not_isSome_iff_eq_none.mp hmethod
    have hget : (get : Lower Session) s = (.ok s, s) := rfl
    have hrun : ret o ctx (some e) s = (.error .outsideMethod, s) := by
      rw [ret, run_bind (currentScope_eq hctx hid)]
      refine (run_bind hget).trans ?_
      simp only [hnone]
      rfl
    rw [hrun]
    refine ⟨⟨hs, ScopeTree.GrowsInside.refl id _, List.prefix_rfl⟩, fun h => ?_⟩
    rcases h with h | h
    · exact absurd h hmethod
    · cases h

theorem staysInside_declare (l : Local) :
    StaysInside (declare o ctx l) (Stmt.declare l).Updates id plain := by
  intro s hs hid
  have hin := Context.inScope_of_scope hctx hid
  have hhere : ctx.here = id := Option.some.inj (hin.inside.symm.trans hctx)
  obtain ⟨s', hrun, hcore⟩ :=
    gives_declare (c := s.core) o hin hs.not_muted hs.nothing_pending l s rfl
  have hscopes : s'.scopes = (l.plan ctx s.scopes).scopes := congrArg Core.scopes hcore
  have hreport : s'.report.diagnostics = s.report.diagnostics ++ (l.plan ctx s.scopes).problems :=
    congrArg Core.diagnostics hcore
  rw [hrun]
  refine ⟨⟨Session.idle_of_core hcore hs.nothing_pending hs.not_muted, ?_, ?_⟩, fun _ => ⟨_, rfl⟩⟩
  · rw [hscopes, ← hhere]
    exact l.plan_growsInside hin
  · rw [hreport]
    exact List.prefix_append _ _

theorem staysInside_nested (body : List Stmt)
    (hbody : ∀ {inner : Context} {child : Nat}, inner.scope = some child →
      StaysInside (stmts o inner body) Scope.Extends child plain) :
    StaysInside (nested o ctx fun inner => stmts o inner body) Eq id plain := by
  intro s hs hid
  let child := s.scopes.size
  let opened : Session := { s with scopes := (s.scopes.child id) }
  let inner : Lower (List Block) := do
    let blocks ← stmts o (ctx.withScope child) body
    return blocks ++ (← cleanup o child)
  have hrun : nested o ctx (fun inner => stmts o inner body) s = inner opened := by
    rw [nested, run_bind (currentScope_eq hctx hid)]
    have hopen : ask (·.createChild id) s = (.ok (child, s.scopes.child id), s) :=
      ask_eq (ScopeTree.createChild_of_lt hid)
    exact run_bind hopen
  have hinner : StaysInside inner Scope.Extends child plain := by
    refine (hbody rfl).bind fun blocks => ?_
    have hcleanup : StaysInside (do return blocks ++ (← cleanup o child)) Eq child plain :=
      (staysInside_cleanup o).bind fun _ => staysInside_pure _
    exact hcleanup.mono Scope.Extends.of_eq
  have hchild : child < opened.scopes.size := by
    rw [ScopeTree.child_size hid]
    exact Nat.lt_succ_self _
  obtain ⟨hreach, hresult⟩ := hinner opened ⟨hs.nothing_pending, hs.not_muted⟩ hchild
  rw [show opened.scopes.method = s.scopes.method from ScopeTree.child_method _ _] at hresult
  rw [hrun]
  exact ⟨⟨hreach.idle, hreach.scopes.of_child hid, hreach.diagnostics⟩, hresult⟩

end Inside

-- The induction is over the source. A body may add to the scope it is compiled in, which for nested
-- bodies is a new one, so that only a declaration is left to change the scope of a statement.

mutual

theorem staysInside_stmt (o : Options) {ctx : Context} {id : Nat} (hctx : ctx.scope = some id) :
    ∀ s : Stmt, StaysInside (stmt o ctx s) s.Updates id s.ReturnsNothing
  | .declare l => staysInside_declare o hctx l
  | .assign x a loc => (staysInside_assign o hctx x a loc).updates nofun
  | .repeatLoop inline count body _ => by
      have hbody := staysInside_nested o hctx body fun h => staysInside_stmts o h body
      rw [stmt, Stmt.ReturnsNothing]
      refine StaysInside.updates (hbody.bind fun blocks => ?_) nofun
      cases inline with
      | true => exact staysInside_unroll o count blocks
      | false => exact (staysInside_expr o hctx count).bind fun _ => staysInside_pure _
  | .whileLoop condition body _ => by
      have hbody := staysInside_nested o hctx body fun h => staysInside_stmts o h body
      rw [stmt, Stmt.ReturnsNothing]
      refine StaysInside.updates ((staysInside_expr o hctx condition).bind fun _ => ?_) nofun
      exact hbody.bind fun _ => staysInside_pure _
  | .forever body _ => by
      have hbody := staysInside_nested o hctx body fun h => staysInside_stmts o h body
      rw [stmt, Stmt.ReturnsNothing]
      exact StaysInside.updates (hbody.bind fun _ => staysInside_pure _) nofun
  | .branch condition thenBody elseBody _ => by
      have hfirst := staysInside_nested o hctx thenBody fun h => staysInside_stmts o h thenBody
      have hsecond := staysInside_nested o hctx elseBody fun h => staysInside_stmts o h elseBody
      rw [stmt, Stmt.ReturnsNothing]
      refine StaysInside.updates ((staysInside_expr o hctx condition).bind fun _ => ?_) nofun
      refine (hfirst.imp And.left).bind fun _ => ?_
      by_cases helse : elseBody.isEmpty
      · simp only [helse, if_true]
        exact staysInside_pure _
      · simp only [helse, Bool.false_eq_true, if_false]
        exact (hsecond.imp And.right).bind fun _ => staysInside_pure _
  | .switch _ cases _ => (staysInside_switch o hctx cases).updates nofun
  | .ret value _ => (staysInside_ret o hctx value).updates nofun
  | .scope body _ => by
      have hbody := staysInside_nested o hctx body fun h => staysInside_stmts o h body
      rw [stmt, Stmt.ReturnsNothing]
      exact hbody.updates nofun

-- A body adds its locals to the scope one after the other.
theorem staysInside_stmts (o : Options) {ctx : Context} {id : Nat} (hctx : ctx.scope = some id) :
    ∀ body : List Stmt,
      StaysInside (stmts o ctx body) Scope.Extends id (Stmt.AllReturnNothing body)
  | [] => (staysInside_pure []).mono Scope.Extends.of_eq
  | s :: rest => by
      have hfirst := staysInside_stmt o hctx s
      have hrest := staysInside_stmts o hctx rest
      rw [stmts, Stmt.AllReturnNothing]
      refine ((hfirst.mono Stmt.Updates.extends).imp And.left).bind fun _ => ?_
      refine (hrest.imp And.right).bind fun _ => ?_
      exact (staysInside_pure _).mono Scope.Extends.of_eq

theorem staysInside_switch (o : Options) {ctx : Context} {id : Nat} (hctx : ctx.scope = some id) :
    ∀ cases : List Case, StaysInside (switch o ctx cases) Eq id (Stmt.CasesReturnNothing cases)
  | [] => staysInside_pure _
  | .mk conditions body isDefault loc :: rest => by
      have hbody := staysInside_nested o hctx body fun h => staysInside_stmts o h body
      have hrest := staysInside_switch o hctx rest
      rw [switch, Stmt.CasesReturnNothing]
      by_cases hdefault : (rest.isEmpty && isDefault) = true
      · simp only [hdefault, if_true]
        exact hbody.imp And.left
      · simp only [hdefault, Bool.false_eq_true, if_false]
        refine (staysInside_values o hctx conditions).bind fun _ => ?_
        refine (hbody.imp And.left).bind fun _ => ?_
        by_cases hlast : rest.isEmpty
        · simp only [hlast, if_true]
          exact staysInside_pure _
        · simp only [hlast, Bool.false_eq_true, if_false]
          exact (hrest.imp And.right).bind fun _ => staysInside_pure _

end

end Lower

-- Whatever the session between two statements, the next one leaves it between statements again.
-- Of the scopes that are there it changes at most its own, by one local at the end if it declares a
-- new name. The scopes that it opens come after them and lie inside its own, and what was reported
-- stays reported. Inside a method it is always compiled, and outside one unless it returns a value;
-- the rest holds also if it is not compiled.
theorem stmt_changes_own_scope_only (o : Options) {ctx : Context} {id : Nat}
    (hctx : ctx.scope = some id) {s : Session} (hid : id < s.scopes.size) (hs : s.Idle)
    (stmt : Stmt) :
    ∃ result s', Lower.stmt o ctx stmt s = (result, s') ∧
      (s.scopes.method.isSome ∨ stmt.ReturnsNothing → ∃ blocks, result = .ok blocks) ∧
      s'.pendingSlots = 0 ∧ s'.muted = false ∧
      s.scopes.size ≤ s'.scopes.size ∧
      (∀ j < s.scopes.size, s'.scopes.parent? j = s.scopes.parent? j) ∧
      (∀ j < s.scopes.size, j ≠ id → s'.scopes.get? j = s.scopes.get? j) ∧
      (∃ scope scope', s.scopes.get? id = some scope ∧ s'.scopes.get? id = some scope' ∧
        stmt.Updates scope scope') ∧
      (∀ j, s.scopes.size ≤ j → j < s'.scopes.size → s'.scopes.Descends j id) ∧
      s.report.diagnostics <+: s'.report.diagnostics := by
  obtain ⟨⟨hidle, hscopes, hreport⟩, hresult⟩ := Lower.staysInside_stmt o hctx stmt s hs hid
  obtain ⟨scope, hscope⟩ := ScopeTree.get?_isSome hid
  obtain ⟨scope', hscope', hupdates⟩ := hscopes.own_scope hscope
  have hown : ∃ scope scope', s.scopes.get? id = some scope ∧
      (Lower.stmt o ctx stmt s).2.scopes.get? id = some scope' ∧ stmt.Updates scope scope' :=
    ⟨scope, scope', hscope, hscope', hupdates⟩
  exact ⟨_, _, rfl, hresult, hidle.nothing_pending, hidle.not_muted, hscopes.size_le,
    fun _ => hscopes.parent_eq, fun _ => hscopes.get?_eq, hown, fun _ => hscopes.descends, hreport⟩

-- In a method, after the declaration of `x` and a scope with a declaration of `y`.
def Session.afterScope : Session :=
  let at0 : Location := ⟨0, ⟨0, 0⟩⟩
  (Lower.stmts {} (Context.sample.withScope 0) [
    .declare (.variable ⟨"x", .number, none, 1, at0⟩),
    .scope [.declare (.variable ⟨"y", .number, none, 1, at0⟩)] at0] .sample).2

-- A loop with a count that is not known. Its body declares `x` twice, from a name that is not
-- defined, and returns from a scope inside.
def Stmt.refused : Stmt :=
  let at0 : Location := ⟨0, ⟨0, 0⟩⟩
  .repeatLoop true (.lookup "n" at0) [
    .declare (.variable ⟨"x", .number, some (.lookup "undefined" at0), 2, at0⟩),
    .declare (.array ⟨"x", .number, [.lookup "undefined" at0], at0⟩),
    .scope [.ret (some (.lookup "n" at0)) at0] at0] at0

theorem stmt_changes_own_scope_only_refused :
    (Context.sample.withScope 0).scope = some 0 ∧ 0 < Session.afterScope.scopes.size ∧
    Session.afterScope.Idle ∧
    (∃ s', Lower.stmt {} (Context.sample.withScope 0) .refused .afterScope = (.ok [], s') ∧
      s'.pendingSlots = 0 ∧ s'.muted = false ∧
      s'.scopes.get? 0 = Session.afterScope.scopes.get? 0 ∧
      s'.scopes.get? 1 = Session.afterScope.scopes.get? 1 ∧
      s'.scopes.size = 4 ∧ s'.scopes.Descends 2 0 ∧ s'.scopes.Descends 3 0 ∧
      s'.report.diagnostics.map (·.kind) =
        [.notDefined, .notDefined, .duplicateDeclaration, .invalidArgument]) ∧
    ∀ l : Local, l.name = "y" → ∃ blocks s',
      Lower.stmt {} (Context.sample.withScope 0) (.declare l) .afterScope = (.ok blocks, s') ∧
        s'.scopes.locals 0 = Session.afterScope.scopes.locals 0 ++ [l] ∧
        s'.scopes.get? 1 = Session.afterScope.scopes.get? 1 := by
  have hctx : (Context.sample.withScope 0).scope = some 0 := rfl
  have hold : Session.afterScope.scopes.size = 2 := by decide +kernel
  have hmethod : Session.afterScope.scopes.method.isSome := by decide +kernel
  have hid : 0 < Session.afterScope.scopes.size := by omega
  have hs : Session.afterScope.Idle := ⟨by decide +kernel, by decide +kernel⟩
  refine ⟨hctx, hid, hs, ?_, fun l hname => ?_⟩
  · obtain ⟨result, s', hrun, hresult, hpending, hmuted, -, -, hothers, hown, hnew, -⟩ :=
      stmt_changes_own_scope_only {} hctx hid hs .refused
    obtain ⟨blocks, rfl⟩ := hresult (.inl hmethod)
    obtain ⟨scope, scope', hscope, hscope', hupdates⟩ := hown
    cases hupdates
    have hs' : s' = (Lower.stmt {} (Context.sample.withScope 0) .refused .afterScope).2 := by
      rw [hrun]
    have hblocks : blocks = [] := by
      have hcount : (Except.ok blocks : Except Fault _).toOption.map List.length = some 0 := by
        rw [show Except.ok blocks = _ from (congrArg Prod.fst hrun).symm]
        decide +kernel
      exact List.length_eq_zero_iff.mp (Option.some.inj hcount)
    have hsize : s'.scopes.size = 4 := by
      rw [hs']
      decide +kernel
    have hkinds : s'.report.diagnostics.map (·.kind) =
        [.notDefined, .notDefined, .duplicateDeclaration, .invalidArgument] := by
      rw [hs']
      decide +kernel
    exact ⟨s', hblocks ▸ hrun, hpending, hmuted, hscope'.trans hscope.symm,
      hothers 1 (by omega) (by omega), hsize, hnew 2 (by omega) (by omega),
      hnew 3 (by omega) (by omega), hkinds⟩
  · obtain ⟨result, s', hrun, hresult, -, -, -, -, hothers, hown, -, -⟩ :=
      stmt_changes_own_scope_only {} hctx hid hs (.declare l)
    obtain ⟨blocks, rfl⟩ := hresult (.inl hmethod)
    obtain ⟨scope, scope', hscope, hscope', hupdates⟩ := hown
    have hlocals : Session.afterScope.scopes.locals 0 = scope.locals := by
      rw [ScopeTree.locals, hscope]
    refine ⟨blocks, s', hrun, ?_, hothers 1 (by omega) (by omega)⟩
    cases hupdates with
    | declares _ _ hadded _ =>
        rw [hlocals, ScopeTree.locals, hscope']
        exact hadded
    | keeps htaken =>
        obtain ⟨l', hl', hname'⟩ := htaken l rfl
        rw [← hlocals] at hl'
        obtain rfl := List.mem_singleton.mp hl'
        rw [hname] at hname'
        exact absurd hname' (by decide)

end SpriteCompiler
