import SpriteCompiler.Proofs.Code.Plan

namespace SpriteCompiler

namespace Context

-- The innermost scope is one of the tree.
structure InScope (ctx : Context) (t : ScopeTree) : Prop where
  inside : ctx.scope = some ctx.here
  lt_size : ctx.here < t.size

-- If there is an innermost scope, it is one of the tree.
def Within (ctx : Context) (t : ScopeTree) : Prop :=
  ∀ id, ctx.scope = some id → id < t.size

-- Compiling can go on inside the innermost scope.
structure Ready (ctx : Context) (t : ScopeTree) : Prop extends ctx.InScope t where
  valid : t.Valid
  hasMethod : t.method.isSome

variable {ctx : Context} {t t' : ScopeTree} {m : Option Method} {x : String} {b : Binding}

theorem resolve?_eq (h : ctx.scope = some ctx.here) (t : ScopeTree) (x : String) :
    ctx.resolve? t x =
      ((t.search? ctx.here x).map Local.binding).or (ctx.outer? t.method x) := by
  rw [resolve?, h, Option.bind_some]

theorem resolve?_of_no_scope (h : ctx.scope = none) (t : ScopeTree) (x : String) :
    ctx.resolve? t x = ctx.outer? t.method x := by
  rw [resolve?, h, Option.bind_none, Option.map_none, Option.none_or]

theorem scope_eq_here {id : Nat} (h : ctx.scope = some id) : ctx.scope = some ctx.here := by
  rw [here, h, Option.getD_some]

theorem name_binding (l : Local) : l.binding.name = l.name := by
  cases l <;> rfl

theorem Global.name_binding (g : Global) : g.binding.name = g.name := by
  cases g <;> rfl

-- Outside locals, a name stands for nothing local, and for something of that name.
theorem outer?_spec (h : ctx.outer? m x = some b) :
    b.name = x ∧ (∀ l : Local, b ≠ l.binding) := by
  have hglobal (gs : List Global) (h : (gs.find? (·.name == x)).map Global.binding = some b) :
      b.name = x ∧ (∀ l : Local, b ≠ l.binding) := by
    obtain ⟨g, hg, rfl⟩ := Option.map_eq_some_iff.mp h
    refine ⟨(Global.name_binding g).trans (by simpa using List.find?_some hg), fun l => ?_⟩
    cases g <;> cases l <;> simp [Global.binding, Local.binding]
  rw [outer?, Option.or_eq_some_iff, Option.or_eq_some_iff] at h
  obtain hp | ⟨_, hs | ⟨_, hp⟩⟩ := h
  · obtain ⟨p, hparam, rfl⟩ := Option.map_eq_some_iff.mp hp
    obtain ⟨m, _, hparam⟩ := Option.bind_eq_some_iff.mp hparam
    have hname : p.name = x := by simpa using List.find?_some hparam
    exact ⟨hname, fun l => by cases l <;> simp [Local.binding]⟩
  · obtain ⟨s, _, hs⟩ := Option.bind_eq_some_iff.mp hs
    rw [Sprite.find?, Option.or_eq_some_iff] at hs
    obtain hs | ⟨_, hs⟩ := hs
    · exact hglobal _ hs
    · obtain ⟨m, hm, rfl⟩ := Option.map_eq_some_iff.mp hs
      have hname : m.name = x := by simpa using List.find?_some hm
      exact ⟨hname, fun l => by cases l <;> simp [Local.binding]⟩
  · exact hglobal _ hp

-- A name that stands for a local is found in the scopes.
theorem search?_of_resolve? (h : ctx.scope = some ctx.here) {l : Local}
    (hr : ctx.resolve? t x = some l.binding) : t.search? ctx.here x = some l := by
  rw [resolve?_eq h, Option.or_eq_some_iff] at hr
  obtain hr | ⟨_, hr⟩ := hr
  · obtain ⟨l', hl', hb⟩ := Option.map_eq_some_iff.mp hr
    rw [hl']
    cases l <;> cases l' <;> simp_all [Local.binding]
  · exact absurd rfl ((outer?_spec hr).2 l)

theorem name_of_resolve? (hr : ctx.resolve? t x = some b) : b.name = x := by
  cases hscope : ctx.scope with
  | none =>
      rw [resolve?_of_no_scope hscope] at hr
      exact (outer?_spec hr).1
  | some id =>
      rw [resolve?_eq (scope_eq_here hscope), Option.or_eq_some_iff] at hr
      obtain hr | ⟨_, hr⟩ := hr
      · obtain ⟨l, hl, rfl⟩ := Option.map_eq_some_iff.mp hr
        exact (name_binding l).trans (ScopeTree.name_of_search? hl)
      · exact (outer?_spec hr).1

theorem InScope.within (h : ctx.InScope t) : ctx.Within t := by
  intro id hid
  rw [h.inside] at hid
  exact Option.some.inj hid ▸ h.lt_size

-- Where the scope is there, names are found as they are asked for.

theorem Within.resolve_eq (h : ctx.Within t) (x : String) :
    ctx.resolve t x = .ok (ctx.resolve? t x) := by
  rw [resolve, resolve?]
  cases hscope : ctx.scope with
  | none => rfl
  | some id =>
      simp only [ScopeTree.search_of_lt (h id hscope)]
      rfl

theorem resolve_of_missing {id : Nat} (hid : ctx.scope = some id) (h : t.size ≤ id) (x : String) :
    ctx.resolve t x = .error ⟨id⟩ := by
  rw [resolve, hid]
  simp only [ScopeTree.search_of_missing h]
  rfl

theorem visibleNames_of_missing {id : Nat} (hid : ctx.scope = some id) (h : t.size ≤ id) :
    ctx.visibleNames t = .error ⟨id⟩ := by
  rw [visibleNames, hid]
  simp only [ScopeTree.visibleNames_of_missing h]
  rfl

theorem within_of_resolve {found : Option Binding} (h : ctx.resolve t x = .ok found) :
    ctx.Within t := by
  intro id hid
  by_contra hmissing
  rw [resolve_of_missing hid (Nat.le_of_not_lt hmissing)] at h
  cases h

theorem within_of_visibleNames {names : List String} (h : ctx.visibleNames t = .ok names) :
    ctx.Within t := by
  intro id hid
  by_contra hmissing
  rw [visibleNames_of_missing hid (Nat.le_of_not_lt hmissing)] at h
  cases h

theorem resolve?_of_resolve {found : Option Binding} (h : ctx.resolve t x = .ok found) :
    ctx.resolve? t x = found :=
  Except.ok.inj (((within_of_resolve h).resolve_eq x).symm.trans h)

theorem Within.visibleNames_eq (h : ctx.Within t) : ctx.visibleNames t = .ok (ctx.names t) := by
  rw [visibleNames, names]
  cases hscope : ctx.scope with
  | none => rfl
  | some id =>
      simp only [ScopeTree.visibleNames_of_lt (h id hscope)]
      rfl

theorem Within.inferType_eq (h : ctx.Within t) (e : Expr) :
    e.inferType ctx t = .ok (e.typeAt ctx t) := by
  cases e with
  | lookup x loc =>
      simp only [Expr.inferType, Expr.typeAt, h.resolve_eq, Bind.bind, Except.bind]
      cases ctx.resolve? t x with
      | none => rfl
      | some b => cases b <;> rfl
  | item x index loc =>
      simp only [Expr.inferType, Expr.typeAt, h.resolve_eq]
      rfl
  | _ => rfl

-- Where a name stands for a local, there is a scope.
theorem Within.inScope (h : ctx.Within t) {l : Local} (hr : ctx.resolve? t x = some l.binding) :
    ctx.InScope t := by
  cases hscope : ctx.scope with
  | none =>
      rw [resolve?_of_no_scope hscope] at hr
      exact absurd rfl ((outer?_spec hr).2 l)
  | some id => exact ⟨scope_eq_here hscope, h _ (scope_eq_here hscope)⟩

theorem Ready.withScope {p : Nat} (h : ctx.Ready t) (hp : p < t'.size) (hv : t'.Valid)
    (hm : t'.method = t.method) : (ctx.withScope p).Ready t' :=
  ⟨⟨rfl, hp⟩, hv, hm ▸ h.hasMethod⟩

theorem Ready.grows (h : ctx.Ready t) (hg : ScopeTree.Grows t t' ctx.here) (hv : t'.Valid) :
    ctx.Ready t' :=
  ⟨⟨h.inside, h.lt_size.trans_le hg.size_le⟩, hv, hg.method_eq ▸ h.hasMethod⟩

theorem Ready.child (h : ctx.Ready t) :
    (ctx.withScope t.size).Ready (t.child ctx.here) :=
  h.withScope (by rw [ScopeTree.child_size h.lt_size]; omega) (h.valid.child h.lt_size)
    (ScopeTree.child_method t ctx.here)

-- A method is compiled from its root scope on.
theorem ready_createRoot (ctx : Context) (m : Method) :
    (ctx.withScope 0).Ready (ScopeTree.createRoot { method := some m }).2 :=
  ⟨⟨rfl, Nat.one_pos⟩, ScopeTree.valid_createRoot m, rfl⟩

end Context

namespace Plan

variable {o : Options} {ctx : Context} {t : ScopeTree}

-- The scopes after what was planned inside the innermost scope of the context.
structure Extends (p : Plan) (ctx : Context) (t : ScopeTree) : Prop where
  grows : ScopeTree.Grows t p.scopes ctx.here
  valid : p.scopes.Valid

theorem Extends.ready {p : Plan} (h : p.Extends ctx t) (hr : ctx.Ready t) : ctx.Ready p.scopes :=
  hr.grows h.grows h.valid

-- A nested scope is a new one, so that nothing changes for the scopes that were there.
theorem nested_grows (hr : ctx.Ready t) {body : Context → ScopeTree → Plan}
    (h : ∀ {ctx : Context} {t : ScopeTree}, ctx.Ready t → (body ctx t).Extends ctx t) :
    ScopeTree.Grows t (nested ctx t body).scopes t.size ∧ (nested ctx t body).scopes.Valid := by
  have hinner := h hr.child
  exact ⟨(ScopeTree.grows_child hr.lt_size t.size).trans hinner.grows, hinner.valid⟩

theorem nested_extends (hr : ctx.Ready t) {body : Context → ScopeTree → Plan}
    (h : ∀ {ctx : Context} {t : ScopeTree}, ctx.Ready t → (body ctx t).Extends ctx t) :
    (nested ctx t body).Extends ctx t :=
  ⟨(nested_grows hr h).1.of_new (Nat.le_refl _) _, (nested_grows hr h).2⟩

-- Behind a nested body, the same locals are in scope as before it.
theorem nested_frames (hr : ctx.Ready t) {body : Context → ScopeTree → Plan}
    (h : ∀ {ctx : Context} {t : ScopeTree}, ctx.Ready t → (body ctx t).Extends ctx t) :
    (nested ctx t body).scopes.frames ctx.here = t.frames ctx.here :=
  (nested_grows hr h).1.frames_eq (Nat.le_refl _) hr.lt_size

theorem extends_self (hr : ctx.Ready t) (code : List Command) (ds : List Diagnostic) :
    Extends ⟨code, t, ds⟩ ctx t :=
  ⟨ScopeTree.Grows.refl t _, hr.valid⟩

theorem Extends.trans {p q : Plan} (h : p.Extends ctx t) (h' : q.Extends ctx p.scopes) :
    q.Extends ctx t :=
  ⟨h.grows.trans h'.grows, h'.valid⟩

end Plan

-- What becomes of a declaration depends on the locals of the innermost scope.
theorem Local.plan_cases {ctx : Context} {t : ScopeTree} (hr : ctx.InScope t) (l : Local) :
    ((t.locals ctx.here).find? (·.name == l.name) = none ∧
      (l.plan ctx t).code = l.pushes ctx t ∧ (l.plan ctx t).problems = l.problems ctx t) ∨
    ∃ earlier, (t.locals ctx.here).find? (·.name == l.name) = some earlier ∧
      (l.plan ctx t).code = [] ∧ (l.plan ctx t).problems = l.problems ctx t ++
        [.duplicateDeclaration l.name l.location (some earlier.location)] := by
  obtain ⟨t', hresult⟩ | ⟨d, hresult⟩ := ScopeTree.exists_declare hr.lt_size l
  · rw [Local.plan, hresult]
    have hfree := (ScopeTree.declared_of_declare hresult).name_free
    exact .inl ⟨Local.find?_eq_none_of_ne hfree, rfl, rfl⟩
  · rw [Local.plan, hresult]
    obtain ⟨earlier, hfind, hfirst⟩ := ScopeTree.earlier_of_declare hresult
    exact .inr ⟨earlier, hfind, rfl, by simp only [hfirst]⟩

theorem Local.plan_extends {ctx : Context} {t : ScopeTree} (hr : ctx.Ready t) (l : Local) :
    (l.plan ctx t).Extends ctx t := by
  obtain ⟨t', hresult⟩ | ⟨d, hresult⟩ := ScopeTree.exists_declare hr.lt_size l
  · rw [Local.plan, hresult]
    have hdecl := ScopeTree.declared_of_declare hresult
    exact ⟨hdecl.grows, hdecl.valid hr.valid⟩
  · rw [Local.plan, hresult]
    exact Plan.extends_self hr _ _

mutual

theorem Stmt.plan_extends (o : Options) {ctx : Context} {t : ScopeTree} (hr : ctx.Ready t) :
    ∀ s : Stmt, (s.plan o ctx t).Extends ctx t
  | .declare l => l.plan_extends hr
  | .assign _ _ _ => Plan.extends_self hr _ _
  | .repeatLoop inline count body _ => by
      have hbody := Plan.nested_extends hr fun hr => Stmt.planAll_extends o hr body
      rw [Stmt.plan]
      cases inline with
      | true => exact ⟨hbody.grows, hbody.valid⟩
      | false => exact ⟨hbody.grows, hbody.valid⟩
  | .whileLoop _ body _ => by
      have hbody := Plan.nested_extends hr fun hr => Stmt.planAll_extends o hr body
      exact ⟨hbody.grows, hbody.valid⟩
  | .forever body _ => by
      have hbody := Plan.nested_extends hr fun hr => Stmt.planAll_extends o hr body
      exact ⟨hbody.grows, hbody.valid⟩
  | .branch condition thenBody elseBody _ => by
      have hfirst := Plan.nested_extends hr fun hr => Stmt.planAll_extends o hr thenBody
      have hsecond := Plan.nested_extends (hfirst.ready hr) fun hr =>
        Stmt.planAll_extends o hr elseBody
      rw [Stmt.plan]
      by_cases helse : elseBody.isEmpty
      · simp only [helse, if_true]
        exact ⟨hfirst.grows, hfirst.valid⟩
      · simp only [helse, Bool.false_eq_true, if_false]
        exact hfirst.trans ⟨hsecond.grows, hsecond.valid⟩
  | .switch _ cases _ => Stmt.planCases_extends o hr cases
  | .ret _ _ => Plan.extends_self hr _ _
  | .scope body _ => by
      have hbody := Plan.nested_extends hr fun hr => Stmt.planAll_extends o hr body
      exact ⟨hbody.grows, hbody.valid⟩

theorem Stmt.planAll_extends (o : Options) {ctx : Context} {t : ScopeTree} (hr : ctx.Ready t) :
    ∀ body : List Stmt, (Stmt.planAll o ctx body t).Extends ctx t
  | [] => Plan.extends_self hr _ _
  | s :: rest => by
      have hfirst := Stmt.plan_extends o hr s
      have hrest := Stmt.planAll_extends o (hfirst.ready hr) rest
      exact hfirst.trans ⟨hrest.grows, hrest.valid⟩

theorem Stmt.planCases_extends (o : Options) {ctx : Context} {t : ScopeTree} (hr : ctx.Ready t) :
    ∀ cases : List Case, (Stmt.planCases o ctx cases t).Extends ctx t
  | [] => Plan.extends_self hr _ _
  | .mk conditions body isDefault loc :: rest => by
      have hfirst := Plan.nested_extends hr fun hr => Stmt.planAll_extends o hr body
      have hrest := Stmt.planCases_extends o (hfirst.ready hr) rest
      rw [Stmt.planCases]
      split
      · exact ⟨hfirst.grows, hfirst.valid⟩
      · split
        · exact ⟨hfirst.grows, hfirst.valid⟩
        · exact hfirst.trans ⟨hrest.grows, hrest.valid⟩

end

-- Only a declaration changes a scope that was there.

theorem Stmt.planCases_untouched (o : Options) {ctx : Context} {t : ScopeTree} (hr : ctx.Ready t)
    (cases : List Case) : ScopeTree.Grows t (Stmt.planCases o ctx cases t).scopes t.size := by
  induction cases generalizing t with
  | nil => exact ScopeTree.Grows.refl t _
  | cons case rest ih =>
      obtain ⟨conditions, body, isDefault, loc⟩ := case
      have hfirst := (Plan.nested_grows hr fun hr => Stmt.planAll_extends o hr body).1
      have hready := (Plan.nested_extends hr fun hr => Stmt.planAll_extends o hr body).ready hr
      rw [Stmt.planCases]
      split
      · exact hfirst
      · split
        · exact hfirst
        · exact hfirst.trans ((ih hready).of_new (Nat.le_refl _) _)

theorem Stmt.plan_untouched (o : Options) {ctx : Context} {t : ScopeTree} (hr : ctx.Ready t)
    {s : Stmt} (hs : ∀ l, s ≠ .declare l) :
    ScopeTree.Grows t (s.plan o ctx t).scopes t.size := by
  have hnested {t : ScopeTree} (hr : ctx.Ready t) (body : List Stmt) :=
    (Plan.nested_grows hr fun hr => Stmt.planAll_extends o hr body).1
  cases s with
  | declare l => exact absurd rfl (hs l)
  | assign _ _ _ => exact ScopeTree.Grows.refl t _
  | repeatLoop inline count body _ =>
      rw [Stmt.plan]
      cases inline with
      | true => exact hnested hr body
      | false => exact hnested hr body
  | whileLoop _ body _ => exact hnested hr body
  | forever body _ => exact hnested hr body
  | branch condition thenBody elseBody _ =>
      have hready := (Plan.nested_extends hr fun hr => Stmt.planAll_extends o hr thenBody).ready hr
      rw [Stmt.plan]
      split
      · exact hnested hr thenBody
      · exact (hnested hr thenBody).trans ((hnested hready elseBody).of_new (Nat.le_refl _) _)
  | switch _ cases _ => exact Stmt.planCases_untouched o hr cases
  | ret _ _ => exact ScopeTree.Grows.refl t _
  | scope body _ => exact hnested hr body

end SpriteCompiler
