import SpriteCompiler.Proofs.Lowering.Realize
import SpriteCompiler.Proofs.Program.WellFormed
import SpriteCompiler.Proofs.Scope.Visibility

namespace SpriteCompiler

-- At a place in a method, names stand for what the environment says.
structure Context.Sees (ctx : Context) (t : ScopeTree) (E : Environment) : Prop where
  ready : ctx.Ready t
  frames_eq : t.frames ctx.here = E.frames
  outer_eq : ∀ x, ctx.outer? t.method x = E.outer.find? (·.name == x)
  result_eq : t.method.bind (·.returnType) = E.returnType

namespace Context.Sees

variable {ctx : Context} {t t' : ScopeTree} {E : Environment}

theorem resolve?_eq (h : ctx.Sees t E) (x : String) : ctx.resolve? t x = E.find? x := by
  have hlocals : (E.frames.flatten.map Local.binding).find? (·.name == x) =
      (Local.searchIn? x E.frames).map Local.binding := by
    rw [Local.find?_binding, List.find?_flatten]
    rfl
  rw [Context.resolve?_eq h.ready.inside, ScopeTree.search?_eq, h.frames_eq, h.outer_eq,
    Environment.find?, Environment.bindings, List.find?_append, hlocals]

-- The place after something was planned, with the locals that are then in scope.
theorem extend (h : ctx.Sees t E) {p : Plan} (hp : p.Extends ctx t) {F : List (List Local)}
    (hF : p.scopes.frames ctx.here = F) : ctx.Sees p.scopes { E with frames := F } := by
  have hmethod := hp.grows.method_eq
  exact ⟨hp.ready h.ready, hF, by rw [hmethod]; exact h.outer_eq, by rw [hmethod]; exact h.result_eq⟩

theorem after (h : ctx.Sees t E) (o : Options) (s : Stmt) :
    ctx.Sees (s.plan o ctx t).scopes (E.after s) := by
  have hframes := Stmt.plan_frames o h.ready s
  rw [h.frames_eq] at hframes
  exact h.extend (Stmt.plan_extends o h.ready s) hframes

theorem enter (h : ctx.Sees t E) :
    (ctx.withScope t.size).Sees (t.child ctx.here) E.enter := by
  have hmethod := ScopeTree.child_method t ctx.here
  refine ⟨h.ready.child, ?_, by rw [hmethod]; exact h.outer_eq, by rw [hmethod]; exact h.result_eq⟩
  have hframes := ScopeTree.frames_child h.ready.lt_size
  rw [h.frames_eq] at hframes
  exact hframes

-- The place behind a nested body, where the same locals are in scope as before it.
theorem leave (h : ctx.Sees t E) (o : Options) (body : List Stmt) :
    ctx.Sees (Plan.nested ctx t fun inner t => Stmt.planAll o inner body t).scopes E := by
  have hnested := Plan.nested_extends h.ready fun hr => Stmt.planAll_extends o hr body
  have hframes := Plan.nested_frames h.ready fun hr => Stmt.planAll_extends o hr body
  rw [h.frames_eq] at hframes
  exact h.extend hnested hframes

end Context.Sees

-- What the environment has besides locals is what the context sees besides them.
theorem Context.outer_environment (ctx : Context) (m : Method) :
    (ctx.environment m).outer = ctx.outerBindings (some m) := by
  unfold outerBindings Environment.outer environment
  cases ctx.sprite with
  | none => simp
  | some s => simp [Sprite.bindings]

theorem Context.sees_environment (ctx : Context) (m : Method) :
    (ctx.withScope 0).Sees (ScopeTree.createRoot { method := some m }).2 (ctx.environment m) := by
  refine ⟨ctx.ready_createRoot m, rfl, fun x => ?_, rfl⟩
  rw [outer_environment, find?_outerBindings]
  rfl

section Parts

variable {ctx : Context} {t : ScopeTree} {E : Environment} (h : ctx.Sees t E)

include h

theorem Expr.typeAt_eq (e : Expr) : e.typeAt ctx t = e.typeIn E := by
  cases e with
  | lookup x loc =>
      rw [typeAt, h.resolve?_eq]
      rfl
  | item x index loc =>
      rw [typeAt, h.resolve?_eq]
      rfl
  | _ => rfl

theorem Expr.mismatches_eq_nil_iff (expected : ValueType) (e : Expr) :
    e.mismatches ctx t expected = [] ↔ expected.accepts (e.typeIn E) := by
  rw [mismatches, e.typeAt_eq h]
  split <;> simp_all

theorem Context.problems_eq_nil_iff (x : String) (loc : Location) :
    ctx.problems t x loc = [] ↔ ∃ b, E.find? x = some b ∧ b.IsValue := by
  rw [problems, h.resolve?_eq]
  cases E.find? x with
  | none => simp
  | some b =>
      cases b with
      | localVariable v =>
          by_cases hv : v.slots = 1
          · simpa [hv] using Binding.IsValue.localVariable v hv
          · simp only [hv, if_false, reduceCtorEq, Option.some.injEq, exists_eq_left', false_iff]
            intro hvalue
            cases hvalue with
            | localVariable _ hslots => exact hv hslots
      | localArray a =>
          simp only [reduceCtorEq, Option.some.injEq, exists_eq_left', false_iff]
          intro hvalue
          cases hvalue
      | method m =>
          simp only [reduceCtorEq, Option.some.injEq, exists_eq_left', false_iff]
          intro hvalue
          cases hvalue
      | _ =>
          simp only [Option.some.injEq, exists_eq_left', true_iff]
          constructor

theorem Expr.problems_eq_nil_iff (e : Expr) : e.problems ctx t = [] ↔ e.WellFormed E := by
  induction e with
  | literal value loc => exact ⟨fun _ => .literal value loc, fun _ => rfl⟩
  | lookup x loc =>
      rw [problems, Context.problems_eq_nil_iff h]
      constructor
      · rintro ⟨b, hx, hb⟩
        exact .lookup loc hx hb
      · intro hwf
        cases hwf with
        | lookup _ hx hb => exact ⟨_, hx, hb⟩
  | item x index loc ih =>
      have hitem : Expr.WellFormed E (.item x index loc) ↔
          (∃ b, E.find? x = some b ∧ b.IsArray) ∧ index.WellFormed E := by
        constructor
        · intro hwf
          cases hwf with
          | item _ hx hb hindex => exact ⟨⟨_, hx, hb⟩, hindex⟩
        · rintro ⟨⟨b, hx, hb⟩, hindex⟩
          exact .item loc hx hb hindex
      rw [problems, h.resolve?_eq, hitem, ← ih]
      cases E.find? x with
      | none => simp
      | some b =>
          cases b with
          | globalList l => simp [Binding.IsArray.globalList l]
          | localArray a => simp [Binding.IsArray.localArray a]
          | _ =>
              simp only [reduceCtorEq, Option.some.injEq, exists_eq_left', false_iff, not_and]
              intro harray
              cases harray
  | unary op operand loc ih =>
      rw [problems, ih]
      exact ⟨.unary op loc, fun h => by cases h; assumption⟩
  | binary op left right loc ihl ihr =>
      rw [problems, List.append_eq_nil_iff, ihl, ihr]
      constructor
      · rintro ⟨hl, hr⟩
        exact .binary op loc hl hr
      · intro hwf
        cases hwf with
        | binary _ _ hl hr => exact ⟨hl, hr⟩

theorem Environment.free_iff (x : String) :
    E.Free x ↔ ∀ l ∈ t.locals ctx.here, l.name ≠ x := by
  have hframes := ScopeTree.frames_eq h.ready.lt_size
  rw [Free, ← h.frames_eq, hframes]
  simp

theorem Local.wellFormed_iff (l : Local) :
    l.WellFormed E ↔ E.Free l.name ∧ l.problems ctx t = [] := by
  obtain v | a := l
  · have hvariable : Local.WellFormed E (.variable v) ↔ E.Free v.name ∧
        (∀ e ∈ v.value, v.type.accepts (e.typeIn E)) ∧
        (v.slots ≠ 0 → ∀ e ∈ v.value, e.WellFormed E) := by
      constructor
      · rintro ⟨_, hfree, htype, hvalue⟩
        exact ⟨hfree, htype, hvalue⟩
      · rintro ⟨hfree, htype, hvalue⟩
        exact .variable v hfree htype hvalue
    rw [hvariable, Local.name, problems]
    refine and_congr_right fun _ => ?_
    cases v.value with
    | none => simp
    | some e =>
        simp only [Option.mem_some_iff, forall_eq', List.append_eq_nil_iff,
          e.mismatches_eq_nil_iff h]
        refine and_congr_right fun _ => ?_
        by_cases hslots : v.slots = 0
        · simp [hslots]
        · simp [hslots, e.problems_eq_nil_iff h]
  · have harray : Local.WellFormed E (.array a) ↔ E.Free a.name ∧
        ∀ e ∈ a.items, a.type.accepts (e.typeIn E) ∧ e.WellFormed E := by
      constructor
      · intro hwf
        cases hwf with
        | array _ hfree hitems => exact ⟨hfree, hitems⟩
      · rintro ⟨hfree, hitems⟩
        exact .array a hfree hitems
    rw [harray, Local.name, problems]
    refine and_congr_right fun _ => ?_
    simp only [List.flatMap_eq_nil_iff, List.append_eq_nil_iff, Expr.mismatches_eq_nil_iff h,
      Expr.problems_eq_nil_iff h]

theorem Local.plan_problems_eq_nil_iff (l : Local) :
    (l.plan ctx t).problems = [] ↔ l.WellFormed E := by
  rw [l.wellFormed_iff h, Environment.free_iff h, plan]
  obtain ⟨t', hresult⟩ | ⟨d, hresult⟩ := ScopeTree.exists_declare h.ready.lt_size l
  · have hdecl := ScopeTree.declared_of_declare hresult
    rw [hresult]
    exact ⟨fun hnil => ⟨hdecl.name_free, hnil⟩, And.right⟩
  · obtain ⟨l', hl', hname⟩ := ScopeTree.name_taken_of_declare hresult
    simp only [hresult, List.append_eq_nil_iff, List.cons_ne_self, and_false, false_iff, not_and]
    exact fun hfree => absurd hname (hfree l' hl')

omit h in
theorem ValueType.isAmount_iff (type : ValueType) :
    type.IsAmount ↔ ValueType.number.accepts type := by
  constructor
  · rintro ⟨⟩ <;> rfl
  · intro haccepts
    cases type with
    | number => exact .number
    | boolean => exact .boolean
    | object => exact .object
    | text => cases haccepts

omit h in
theorem ValueType.isJoinable_iff (type : ValueType) :
    type.IsJoinable ↔ ValueType.text.accepts type := by
  constructor
  · rintro ⟨⟩ <;> rfl
  · intro haccepts
    cases type with
    | text => exact .text
    | object => exact .object
    | number | boolean => cases haccepts

omit h in
theorem AssignOp.mismatches_eq_nil_iff (op : AssignOp) (target : ValueType) (loc : Location) :
    op.mismatches target loc = [] ↔ op.Admits target := by
  have hrequired (required : ValueType) (d : Diagnostic) :
      (if required.accepts target then [] else [d]) = [] ↔ required.accepts target := by simp
  cases op with
  | set => exact ⟨fun _ => .set target, fun _ => rfl⟩
  | add | subtract | increment | decrement =>
      refine (hrequired .number _).trans (target.isAmount_iff.symm.trans ⟨fun h => ?_, fun h => ?_⟩)
      · constructor
        exact h
      · cases h
        assumption
  | join =>
      refine (hrequired .text _).trans (target.isJoinable_iff.symm.trans ⟨.join, fun h => ?_⟩)
      cases h
      assumption

theorem Assignment.allProblems_eq_nil_iff (a : Assignment) (loc : Location) (x : String) :
    a.allProblems ctx t loc x = [] ↔ a.WellFormed E x := by
  have hoperand : a.problems ctx t = [] ↔ ∀ e ∈ a.operand?, e.WellFormed E := by
    rw [problems]
    cases a.operand? with
    | none => simp
    | some e => simpa using e.problems_eq_nil_iff h
  -- what the name stands for decides whether it is a target at all
  have htarget (b : Binding) (hb : b.IsVariable) (hx : E.find? x = some b) :
      a.op.mismatches b.type loc ++ a.problems ctx t = [] ↔ a.WellFormed E x := by
    rw [List.append_eq_nil_iff, AssignOp.mismatches_eq_nil_iff, hoperand]
    constructor
    · rintro ⟨htype, hvalue⟩
      exact ⟨⟨b, hx, hb, htype⟩, hvalue⟩
    · rintro ⟨⟨b', hx', _, htype⟩, hvalue⟩
      obtain rfl : b = b' := Option.some.inj (hx.symm.trans hx')
      exact ⟨htype, hvalue⟩
  have hother (d : Diagnostic) (hb : ∀ b, E.find? x = some b → ¬ b.IsVariable) :
      [d] = [] ↔ a.WellFormed E x := by
    simp only [List.cons_ne_self, false_iff]
    rintro ⟨⟨b, hx, hvariable, _⟩, _⟩
    exact hb b hx hvariable
  rw [allProblems, h.resolve?_eq]
  cases hx : E.find? x with
  | none => exact hother _ (by simp [hx])
  | some b =>
      cases b with
      | localVariable v =>
          by_cases hv : v.slots = 1
          · simp only [hv, if_true]
            exact htarget (.localVariable v) (.localVariable v hv) hx
          · simp only [hv, if_false]
            refine hother _ fun b hb hvariable => ?_
            obtain rfl := Option.some.inj (hx.symm.trans hb)
            cases hvariable with
            | localVariable _ hslots => exact hv hslots
      | globalVariable v => exact htarget (.globalVariable v) (.globalVariable v) hx
      | _ =>
          refine hother _ fun b hb hvariable => ?_
          obtain rfl := Option.some.inj (hx.symm.trans hb)
          cases hvariable

theorem resultProblems_eq_nil_iff (e : Expr) :
    resultProblems ctx t (some e) = [] ↔
      ∃ type, E.returnType = some type ∧ type.accepts (e.typeIn E) ∧ e.WellFormed E := by
  obtain ⟨m, hmethod⟩ := Option.isSome_iff_exists.mp h.ready.hasMethod
  have hresult := h.result_eq
  rw [hmethod, Option.bind_some] at hresult
  simp only [resultProblems, hmethod]
  rw [← hresult]
  cases m.returnType with
  | none => simp
  | some type =>
      simp only [List.append_eq_nil_iff, e.mismatches_eq_nil_iff h, e.problems_eq_nil_iff h,
        Option.some.injEq, exists_eq_left']

omit h in
theorem Expr.countProblems_eq_nil_iff (o : Options) (count : Expr) :
    count.countProblems o = [] ↔ count.IsInlineCount o.maxInlineRepetitions.toNat := by
  rw [countProblems, IsInlineCount]
  cases count with
  | literal value loc =>
      cases value with
      | number x =>
          simp only [literal?, Expr.literal.injEq, Literal.number.injEq, unrolling]
          cases hkind : Number.kind x with
          | nan => simp [hkind]
          | infinite negative => cases negative <;> simp [hkind]
          | finite b =>
              by_cases hlimit : (o.maxInlineRepetitions.toNat : Int) < b.floor
              · simp only [hlimit, if_true, reduceCtorEq, false_iff]
                rintro ⟨_, _, ⟨rfl, _⟩, hwithin⟩
                rw [hkind] at hwithin
                simp only at hwithin
                omega
              · simp only [hlimit, if_false, true_iff]
                refine ⟨x, loc, ⟨rfl, rfl⟩, ?_⟩
                rw [hkind]
                exact .inr (by omega)
      | _ => simp [literal?]
  | _ => simp [literal?]

end Parts

namespace Stmt

variable {limit : Nat} {E : Environment}

theorem allWellFormed_cons_iff {s : Stmt} {rest : List Stmt} :
    AllWellFormed limit E (s :: rest) ↔
      s.WellFormed limit E ∧ AllWellFormed limit (E.after s) rest := by
  constructor
  · intro hwf
    cases hwf with
    | cons hs hrest => exact ⟨hs, hrest⟩
  · rintro ⟨hs, hrest⟩
    exact .cons hs hrest

end Stmt

-- A nested body has the problems that it has inside its scope.
theorem Plan.nested_problems_eq_nil_iff {ctx : Context} {t : ScopeTree} {E : Environment}
    (h : ctx.Sees t E) {body : Context → ScopeTree → Plan} {P : Environment → Prop}
    (hbody : ∀ {ctx : Context} {t : ScopeTree} {E : Environment}, ctx.Sees t E →
      ((body ctx t).problems = [] ↔ P E)) :
    (Plan.nested ctx t body).problems = [] ↔ P E.enter :=
  hbody h.enter

mutual

-- A statement has no problems exactly if it is well-formed where it stands.
theorem Stmt.problems_eq_nil_iff (o : Options) {ctx : Context} {t : ScopeTree} {E : Environment}
    (h : ctx.Sees t E) : ∀ s : Stmt,
      (s.plan o ctx t).problems = [] ↔ s.WellFormed o.maxInlineRepetitions.toNat E
  | .declare l => by
      rw [Stmt.plan, l.plan_problems_eq_nil_iff h]
      exact ⟨.declare, fun hwf => by cases hwf; assumption⟩
  | .assign x a loc => by
      simp only [Stmt.plan, a.allProblems_eq_nil_iff h]
      exact ⟨.assign loc, fun hwf => by cases hwf; assumption⟩
  | .repeatLoop inline count body loc => by
      have hbody := Plan.nested_problems_eq_nil_iff h fun h => Stmt.allProblems_eq_nil_iff o h body
      have hcount := count.problems_eq_nil_iff (h.leave o body)
      cases inline with
      | true =>
          simp only [Stmt.plan, if_true, List.append_eq_nil_iff, hbody,
            count.countProblems_eq_nil_iff o]
          exact ⟨fun ⟨hb, hc⟩ => .inlineLoop loc hc hb, fun hwf => by
            cases hwf with
            | inlineLoop _ hc hb => exact ⟨hb, hc⟩⟩
      | false =>
          simp only [Stmt.plan, Bool.false_eq_true, if_false, List.append_eq_nil_iff, hbody, hcount]
          exact ⟨fun ⟨hb, hc⟩ => .repeatLoop loc hc hb, fun hwf => by
            cases hwf with
            | repeatLoop _ hc hb => exact ⟨hb, hc⟩⟩
  | .whileLoop condition body loc => by
      have hbody := Plan.nested_problems_eq_nil_iff h fun h => Stmt.allProblems_eq_nil_iff o h body
      simp only [Stmt.plan, List.append_eq_nil_iff, hbody, condition.problems_eq_nil_iff h]
      exact ⟨fun ⟨hc, hb⟩ => .whileLoop loc hc hb, fun hwf => by
        cases hwf with
        | whileLoop _ hc hb => exact ⟨hc, hb⟩⟩
  | .forever body loc => by
      have hbody := Plan.nested_problems_eq_nil_iff h fun h => Stmt.allProblems_eq_nil_iff o h body
      simp only [Stmt.plan, hbody]
      exact ⟨.forever loc, fun hwf => by cases hwf; assumption⟩
  | .branch condition thenBody elseBody loc => by
      have hthen := Plan.nested_problems_eq_nil_iff h fun h =>
        Stmt.allProblems_eq_nil_iff o h thenBody
      have helse := Plan.nested_problems_eq_nil_iff (h.leave o thenBody) fun h =>
        Stmt.allProblems_eq_nil_iff o h elseBody
      have hbranch : Stmt.WellFormed o.maxInlineRepetitions.toNat E
          (.branch condition thenBody elseBody loc) ↔ condition.WellFormed E ∧
            Stmt.AllWellFormed o.maxInlineRepetitions.toNat E.enter thenBody ∧
            Stmt.AllWellFormed o.maxInlineRepetitions.toNat E.enter elseBody :=
        ⟨fun hwf => by cases hwf with | branch _ hc ht he => exact ⟨hc, ht, he⟩,
          fun ⟨hc, ht, he⟩ => .branch loc hc ht he⟩
      rw [hbranch, Stmt.plan]
      cases elseBody with
      | nil =>
          simp only [List.isEmpty_nil, if_true, List.append_eq_nil_iff, hthen,
            condition.problems_eq_nil_iff h]
          exact and_congr_right fun _ => ⟨fun ht => ⟨ht, .nil⟩, And.left⟩
      | cons s rest =>
          simp only [List.isEmpty_cons, Bool.false_eq_true, if_false, List.append_eq_nil_iff, hthen,
            helse, condition.problems_eq_nil_iff h]
  | .switch subject cases loc => by
      rw [Stmt.plan, Stmt.casesProblems_eq_nil_iff o h cases]
      exact ⟨.switch subject loc, fun hwf => by cases hwf; assumption⟩
  | .ret none loc => by
      simp only [Stmt.plan, resultProblems, true_iff]
      exact .ret loc
  | .ret (some e) loc => by
      simp only [Stmt.plan, resultProblems_eq_nil_iff h]
      exact ⟨fun ⟨_, htype, hfits, he⟩ => .retValue loc htype hfits he, fun hwf => by
        cases hwf with
        | retValue _ htype hfits he => exact ⟨_, htype, hfits, he⟩⟩
  | .scope body loc => by
      have hbody := Plan.nested_problems_eq_nil_iff h fun h => Stmt.allProblems_eq_nil_iff o h body
      simp only [Stmt.plan, hbody]
      exact ⟨.scope loc, fun hwf => by cases hwf; assumption⟩

theorem Stmt.allProblems_eq_nil_iff (o : Options) {ctx : Context} {t : ScopeTree}
    {E : Environment} (h : ctx.Sees t E) : ∀ body : List Stmt,
      (Stmt.planAll o ctx body t).problems = [] ↔
        Stmt.AllWellFormed o.maxInlineRepetitions.toNat E body
  | [] => ⟨fun _ => .nil, fun _ => rfl⟩
  | s :: rest => by
      have hrest := Stmt.allProblems_eq_nil_iff o (h.after o s) rest
      simp only [Stmt.planAll, List.append_eq_nil_iff, Stmt.problems_eq_nil_iff o h s, hrest,
        Stmt.allWellFormed_cons_iff]

theorem Stmt.casesProblems_eq_nil_iff (o : Options) {ctx : Context} {t : ScopeTree}
    {E : Environment} (h : ctx.Sees t E) : ∀ cases : List Case,
      (Stmt.planCases o ctx cases t).problems = [] ↔
        Stmt.CasesWellFormed o.maxInlineRepetitions.toNat E cases
  | [] => ⟨fun _ => .nil, fun _ => rfl⟩
  | .mk conditions body isDefault loc :: rest => by
      have hbody := Plan.nested_problems_eq_nil_iff h fun h => Stmt.allProblems_eq_nil_iff o h body
      have hrest := Stmt.casesProblems_eq_nil_iff o (h.leave o body) rest
      have hconditions : (conditions.flatMap fun e => e.problems ctx t) = [] ↔
          ∀ e ∈ conditions, e.WellFormed E := by
        simp only [List.flatMap_eq_nil_iff, Expr.problems_eq_nil_iff h]
      rw [Stmt.planCases]
      by_cases hdefault : rest.isEmpty && isDefault
      · obtain ⟨hempty, rfl⟩ := Bool.and_eq_true_iff.mp hdefault
        obtain rfl := List.isEmpty_iff.mp hempty
        simp only [hdefault, if_true, hbody]
        exact ⟨.default conditions loc, fun hwf => by cases hwf <;> assumption⟩
      · have hcons : Stmt.CasesWellFormed o.maxInlineRepetitions.toNat E
            (.mk conditions body isDefault loc :: rest) ↔ (∀ e ∈ conditions, e.WellFormed E) ∧
              Stmt.AllWellFormed o.maxInlineRepetitions.toNat E.enter body ∧
              Stmt.CasesWellFormed o.maxInlineRepetitions.toNat E rest := by
          constructor
          · intro hwf
            cases hwf with
            | default _ _ _ => exact absurd rfl hdefault
            | cons _ _ hc hb hr => exact ⟨hc, hb, hr⟩
          · rintro ⟨hc, hb, hr⟩
            exact .cons isDefault loc hc hb hr
        rw [hcons]
        simp only [hdefault, Bool.false_eq_true, if_false]
        cases rest with
        | nil =>
            simp only [List.isEmpty_nil, if_true, List.append_eq_nil_iff, hconditions, hbody]
            exact and_congr_right fun _ => ⟨fun hb => ⟨hb, .nil⟩, And.left⟩
        | cons c rest =>
            simp only [List.isEmpty_cons, Bool.false_eq_true, if_false, List.append_eq_nil_iff,
              hconditions, hbody, hrest]

end

-- A method is always compiled, and nothing is reported exactly if it is well-formed.
theorem lowerMethod_accepts_iff (o : Options) (ctx : Context) (m : Method) (r : Report) :
    ∃ p r', lowerMethod o ctx m r = (.ok p, r') ∧
      (r'.diagnostics = r.diagnostics ↔ m.WellFormed o ctx) := by
  obtain ⟨r', hrun, hproblems⟩ := lowerMethod_run o ctx m r
  refine ⟨_, r', hrun, ?_⟩
  rw [hproblems, List.append_right_eq_self]
  exact Stmt.allProblems_eq_nil_iff o (ctx.sees_environment m) m.body

end SpriteCompiler
