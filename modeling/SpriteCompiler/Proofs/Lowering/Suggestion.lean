import SpriteCompiler.Proofs.Lowering.Realize
import SpriteCompiler.Proofs.Program.Everywhere
import SpriteCompiler.Proofs.Scope.Visibility

namespace SpriteCompiler

-- A name in a program, with what is visible where it stands.
structure Use where
  name : String
  loc : Location
  ctx : Context
  scopes : ScopeTree

def Use.resolve (u : Use) : Except MissingScope (Option Binding) :=
  u.ctx.resolve u.scopes u.name

-- The use is reported as one of a name that is not defined.
def Use.NotDefined (u : Use) (d : Diagnostic) : Prop :=
  u.resolve = .ok none ∧ ∃ names, u.ctx.visibleNames u.scopes = .ok names ∧
    d = .notDefined u.name u.loc (suggest u.name names)

def Expr.uses (ctx : Context) (t : ScopeTree) : Expr → List Use
  | .literal _ _ => []
  | .lookup x loc => [⟨x, loc, ctx, t⟩]
  | .item x index loc => ⟨x, loc, ctx, t⟩ :: index.uses ctx t
  | .unary _ operand _ => operand.uses ctx t
  | .binary _ left right _ => left.uses ctx t ++ right.uses ctx t

-- The names used in a body with a new scope.
def Use.nested (ctx : Context) (t : ScopeTree) (body : Context → ScopeTree → List Use) : List Use :=
  body (ctx.withScope t.size) (t.child ctx.here)

mutual

-- The names used in a statement. What comes after a nested body sees the scopes that it leaves.
def Stmt.uses (o : Options) (ctx : Context) : Stmt → ScopeTree → List Use
  | .declare l, t => l.initializers.flatMap (Expr.uses ctx t)
  | .assign x a loc, t => ⟨x, loc, ctx, t⟩ :: a.operand?.elim [] (Expr.uses ctx t)
  | .repeatLoop inline count body _, t =>
    let p := Plan.nested ctx t fun inner t => Stmt.planAll o inner body t
    Use.nested ctx t (fun inner t => Stmt.usesAll o inner body t) ++
      if inline then [] else count.uses ctx p.scopes
  | .whileLoop condition body _, t =>
    condition.uses ctx t ++ Use.nested ctx t fun inner t => Stmt.usesAll o inner body t
  | .forever body _, t => Use.nested ctx t fun inner t => Stmt.usesAll o inner body t
  | .branch condition thenBody elseBody _, t =>
    let p := Plan.nested ctx t fun inner t => Stmt.planAll o inner thenBody t
    condition.uses ctx t ++ (Use.nested ctx t (fun inner t => Stmt.usesAll o inner thenBody t) ++
      Use.nested ctx p.scopes fun inner t => Stmt.usesAll o inner elseBody t)
  | .switch _ cases _, t => Stmt.usesCases o ctx cases t
  | .ret value _, t => value.elim [] (Expr.uses ctx t)
  | .scope body _, t => Use.nested ctx t fun inner t => Stmt.usesAll o inner body t

def Stmt.usesAll (o : Options) (ctx : Context) : List Stmt → ScopeTree → List Use
  | [], _ => []
  | s :: rest, t => Stmt.uses o ctx s t ++ Stmt.usesAll o ctx rest (s.plan o ctx t).scopes

-- The conditions of a default at the end are not looked at.
def Stmt.usesCases (o : Options) (ctx : Context) : List Case → ScopeTree → List Use
  | [], _ => []
  | .mk conditions body isDefault _ :: rest, t =>
    let p := Plan.nested ctx t fun inner t => Stmt.planAll o inner body t
    (if rest.isEmpty && isDefault then [] else conditions.flatMap (Expr.uses ctx t)) ++
      (Use.nested ctx t (fun inner t => Stmt.usesAll o inner body t) ++
        Stmt.usesCases o ctx rest p.scopes)

end

-- If the problem is a name that is not defined, it is one of these and stands for nothing there.
def Diagnostic.RaisedFor (us : List Use) (d : Diagnostic) : Prop :=
  d.kind = .notDefined → ∃ u ∈ us, u.scopes.Reachable ∧ u.NotDefined d

namespace Lower

-- Run in a session with the scopes `t`, the step adds problems raised for these uses only. If it
-- gives a result, it leaves the scopes `t'`.
def Raises {α : Type} (x : Lower α) (t : ScopeTree) (us : List Use) (t' : ScopeTree) : Prop :=
  t.Reachable → ∀ s : Session, s.scopes = t →
    (∃ ds, (x s).2.report.diagnostics = s.report.diagnostics ++ ds ∧ ∀ d ∈ ds, d.RaisedFor us) ∧
      ∀ a s', x s = (.ok a, s') → s'.scopes = t' ∧ t'.Reachable

namespace Raises

variable {α β : Type} {t t' t'' : ScopeTree} {us vs : List Use}

theorem mono {x : Lower α} (h : Raises x t us t') (hsub : us ⊆ vs) : Raises x t vs t' := by
  intro ht s hs
  obtain ⟨⟨ds, hds, hraised⟩, hafter⟩ := h ht s hs
  refine ⟨⟨ds, hds, fun d hd hkind => ?_⟩, hafter⟩
  obtain ⟨u, hu, hd⟩ := hraised d hd hkind
  exact ⟨u, hsub hu, hd⟩

theorem pure (a : α) : Raises (pure a) t us t := by
  intro ht s hs
  refine ⟨⟨[], (List.append_nil _).symm, nofun⟩, fun b s' h => ?_⟩
  cases h
  exact ⟨hs, ht⟩

-- After a fault there is nothing to be said about the scopes.
theorem throw (e : Fault) : Raises (throw e : Lower α) t us t' :=
  fun _ _ _ => ⟨⟨[], (List.append_nil _).symm, nofun⟩, nofun⟩

theorem bind {x : Lower α} {f : α → Lower β} (hx : Raises x t us t')
    (hf : ∀ a, Raises (f a) t' us t'') : Raises (x >>= f) t us t'' := by
  intro ht s hs
  obtain ⟨⟨ds, hds, hraised⟩, hafter⟩ := hx ht s hs
  rcases hrun : x s with ⟨result, s₁⟩
  rw [hrun] at hds
  cases result with
  | error e =>
      rw [run_bind_error hrun]
      exact ⟨⟨ds, hds, hraised⟩, nofun⟩
  | ok a =>
      rw [run_bind hrun]
      obtain ⟨hs₁, ht'⟩ := hafter a s₁ hrun
      obtain ⟨⟨es, hes, hraised'⟩, hafter'⟩ := hf a ht' s₁ hs₁
      refine ⟨⟨ds ++ es, by rw [hes, hds, List.append_assoc], fun d hd => ?_⟩, hafter'⟩
      exact (List.mem_append.mp hd).elim (hraised d) (hraised' d)

theorem get_bind {f : Session → Lower β} (hf : ∀ s : Session, s.scopes = t → Raises (f s) t us t') :
    Raises (get >>= f) t us t' :=
  fun ht s hs => hf s hs ht s hs

-- A step that changes the session and reports nothing.
theorem modify {f : Session → Session} (hreport : ∀ s : Session, (f s).report.diagnostics =
    s.report.diagnostics) (hscopes : ∀ s : Session, s.scopes = t → (f s).scopes = t')
    (hreach : t.Reachable → t'.Reachable) : Raises (modify f) t us t' := by
  intro ht s hs
  refine ⟨⟨[], (hreport s).trans (List.append_nil _).symm, nofun⟩, fun a s' h => ?_⟩
  cases h
  exact ⟨hscopes s hs, hreach ht⟩

-- Neither the scopes nor the problems are changed.
theorem aside {f : Session → Session} (hreport : ∀ s : Session, (f s).report.diagnostics =
    s.report.diagnostics) (hscopes : ∀ s : Session, (f s).scopes = s.scopes) :
    Raises (MonadState.modifyGet fun s => ((), f s)) t us t :=
  modify hreport (fun s hs => (hscopes s).trans hs) id

end Raises

variable {α β : Type} {ctx : Context} {t t' : ScopeTree} {us : List Use}

theorem raises_report {d : Diagnostic} (hd : d.RaisedFor us) : Raises (report d) t us t := by
  intro ht s hs
  have hsame : (report d s).2.scopes = s.scopes := by
    change (ite _ _ _ : Session).scopes = _
    split <;> rfl
  refine ⟨?_, fun a s' h => ?_⟩
  · change ∃ ds, (ite _ _ _ : Session).report.diagnostics = _ ∧ _
    split
    · exact ⟨[], (List.append_nil _).symm, nofun⟩
    · refine ⟨[d], rfl, fun d' hd' => ?_⟩
      rw [List.mem_singleton.mp hd']
      exact hd
  · rw [h, hs] at hsame
    exact ⟨hsame, ht⟩

-- A problem of another kind is raised for no use.
theorem raises_other {d : Diagnostic} (hd : (d.kind == .notDefined) = false) :
    Raises (report d) t us t := by
  refine raises_report fun hkind => ?_
  rw [hkind] at hd
  cases hd

-- Where the scope is missing, nothing is done.
theorem raises_ask_bind {question : ScopeTree → Except MissingScope α} {f : α → Lower β}
    (hf : ∀ a, question t = .ok a → Raises (f a) t us t') : Raises (ask question >>= f) t us t' := by
  intro ht s hs
  subst hs
  cases hanswer : question s.scopes with
  | ok a =>
      rw [run_bind (ask_eq hanswer)]
      exact hf a hanswer ht s rfl
  | error missing =>
      rw [run_bind_error (ask_missing hanswer)]
      exact ⟨⟨[], (List.append_nil _).symm, nofun⟩, nofun⟩

theorem raises_ask (question : ScopeTree → Except MissingScope α) :
    Raises (ask question) t us t := by
  rw [← bind_pure (ask question)]
  exact raises_ask_bind fun a _ => Raises.pure a

theorem raises_reportNotDefined {x : String} {loc : Location} (hx : ctx.resolve t x = .ok none)
    (hu : ⟨x, loc, ctx, t⟩ ∈ us) : Raises (reportNotDefined ctx x loc) t us t := by
  intro ht
  refine raises_ask_bind (fun names hnames => ?_) ht
  exact raises_report fun _ => ⟨_, hu, ht, hx, names, hnames, rfl⟩

theorem raises_trace (text : String) : Raises (trace text) t us t :=
  Raises.aside (fun _ => rfl) fun _ => rfl

theorem raises_traceRelease (locals : List Local) : Raises (traceRelease locals) t us t := by
  unfold traceRelease
  split
  · exact raises_trace _
  · exact Raises.pure ()

theorem currentScope_of_not_inScope {s : Session} (h : ¬ctx.InScope s.scopes) :
    ∃ e, currentScope ctx s = (.error e, s) := by
  unfold currentScope
  cases hscope : ctx.scope with
  | none => exact ⟨_, rfl⟩
  | some id =>
      have hhere : ctx.here = id := by rw [Context.here, hscope, Option.getD_some]
      have hge : ¬id < s.scopes.size := fun hlt => h ⟨Context.scope_eq_here hscope, hhere ▸ hlt⟩
      refine ⟨.noSuchScope id, ?_⟩
      change (if id < s.scopes.size then pure id else throw (.noSuchScope id) : Lower Nat) s = _
      rw [if_neg hge]
      rfl

-- Where there is no scope, nothing is done.
theorem raises_currentScope_bind {f : Nat → Lower β}
    (hf : ctx.InScope t → Raises (f ctx.here) t us t') :
    Raises (currentScope ctx >>= f) t us t' := by
  intro ht s hs
  subst hs
  by_cases hin : ctx.InScope s.scopes
  · rw [run_bind (currentScope_eq hin.inside hin.lt_size)]
    exact hf hin ht s rfl
  · obtain ⟨e, hrun⟩ := currentScope_of_not_inScope hin
    rw [run_bind_error hrun]
    exact ⟨⟨[], (List.append_nil _).symm, nofun⟩, nofun⟩

theorem raises_stackDepth (x : String) : Raises (stackDepth ctx x) t us t := by
  refine raises_currentScope_bind fun _ => raises_ask_bind fun depth _ => ?_
  cases depth with
  | none => exact Raises.throw _
  | some depth => exact Raises.get_bind fun _ _ => Raises.pure _

theorem raises_placeholder {d : Diagnostic} (hd : (d.kind == .notDefined) = false) :
    Raises (placeholder d) t us t :=
  (raises_other hd).bind fun _ => Raises.pure _

variable (o : Options)

theorem raises_lookup {x : String} {loc : Location} (hu : ⟨x, loc, ctx, t⟩ ∈ us) :
    Raises (lookup o ctx x loc) t us t := by
  refine raises_ask_bind fun found hx => ?_
  cases found with
  | none => exact (raises_reportNotDefined hx hu).bind fun _ => Raises.pure _
  | some b =>
      cases b with
      | localVariable v =>
          by_cases hv : v.slots = 1
          · simp only [hv, if_true]
            exact (raises_stackDepth x).bind fun _ => Raises.pure _
          · simp only [hv, if_false]
            exact raises_placeholder rfl
      | localArray d => exact raises_placeholder rfl
      | method d => exact raises_placeholder rfl
      | _ => exact Raises.pure _

theorem raises_expr (e : Expr) : Raises (expr o ctx e) t (e.uses ctx t) t := by
  induction e with
  | literal value _ => exact Raises.pure _
  | lookup x loc => exact raises_lookup o (.head _)
  | item x index loc ih =>
      have hindex := ih.mono (List.subset_cons_self ⟨x, loc, ctx, t⟩ _)
      refine raises_ask_bind fun found hx => ?_
      cases found with
      | none => exact (raises_reportNotDefined hx (.head _)).bind fun _ => Raises.pure _
      | some b =>
          cases b with
          | globalList d => exact hindex.bind fun _ => Raises.pure _
          | localArray d =>
              exact hindex.bind fun _ => (raises_stackDepth x).bind fun _ => Raises.pure _
          | _ => exact raises_placeholder rfl
  | unary op operand loc ih => exact ih.bind fun _ => Raises.pure _
  | binary op left right loc ihl ihr =>
      refine (ihl.mono (List.subset_append_left _ _)).bind fun _ => ?_
      exact (ihr.mono (List.subset_append_right _ _)).bind fun _ => Raises.pure _

theorem raises_values (es : List Expr) :
    Raises (es.mapM (expr o ctx)) t (es.flatMap (Expr.uses ctx t)) t := by
  induction es with
  | nil => exact Raises.pure _
  | cons e es ih =>
      rw [List.mapM_cons, List.flatMap_cons]
      refine ((raises_expr o e).mono (List.subset_append_left _ _)).bind fun _ => ?_
      exact (ih.mono (List.subset_append_right _ _)).bind fun _ => Raises.pure _

theorem raises_checkType (expected : ValueType) (e : Expr) :
    Raises (checkType ctx expected e) t us t := by
  refine raises_ask_bind fun found _ => ?_
  split
  · exact Raises.pure ()
  · exact raises_other rfl

theorem raises_checkOperator (op : AssignOp) (target : ValueType) (loc : Location) :
    Raises (checkOperator op target loc) t us t := by
  unfold checkOperator
  split
  · exact Raises.pure ()
  · split
    · exact Raises.pure ()
    · exact raises_other rfl

section Assign

variable {a : Assignment} {x : String} {loc : Location} (hu : ⟨x, loc, ctx, t⟩ ∈ us)
  (hoperand : ∀ e ∈ a.operand?, e.uses ctx t ⊆ us)

include hu in
theorem raises_joined {e : Expr} (he : e.uses ctx t ⊆ us) :
    Raises (joined o ctx x e loc) t us t := by
  refine (raises_lookup o hu).bind fun _ => ?_
  exact ((raises_expr o e).mono he).bind fun _ => Raises.pure _

include hoperand

theorem raises_step : Raises (step o ctx a loc) t us t := by
  cases a with
  | add e => exact (raises_expr o e).mono (hoperand e rfl)
  | subtract e => exact ((raises_expr o e).mono (hoperand e rfl)).bind fun _ => Raises.pure _
  | increment => exact Raises.pure _
  | decrement => exact Raises.pure _
  | set e => exact Raises.throw _
  | join e => exact Raises.throw _

include hu

theorem raises_assignLocal {v : LocalVariable} (hv : v.name = x) :
    Raises (assignLocal o ctx v a loc) t us t := by
  subst hv
  refine (raises_stackDepth v.name).bind fun _ => ?_
  have hstep : Raises (step o ctx a loc) t us t := raises_step o hoperand
  cases a with
  | set e => exact ((raises_expr o e).mono (hoperand e rfl)).bind fun _ => Raises.pure _
  | join e => exact (raises_joined o hu (hoperand e rfl)).bind fun _ => Raises.pure _
  | _ => exact hstep.bind fun _ => (Raises.pure _).bind fun _ => Raises.pure _

theorem raises_assignGlobal {v : GlobalVariable} (hv : v.name = x) :
    Raises (assignGlobal o ctx v a loc) t us t := by
  subst hv
  have hstep : Raises (step o ctx a loc) t us t := raises_step o hoperand
  cases a with
  | set e => exact ((raises_expr o e).mono (hoperand e rfl)).bind fun _ => Raises.pure _
  | join e => exact (raises_joined o hu (hoperand e rfl)).bind fun _ => Raises.pure _
  | _ => exact hstep.bind fun _ => Raises.pure _

-- The target is looked up again by the name of what it stands for, which is the same name.
theorem raises_assign : Raises (assign o ctx x a loc) t us t := by
  refine raises_ask_bind fun found hx => ?_
  cases found with
  | none => exact (raises_reportNotDefined hx hu).bind fun _ => Raises.pure _
  | some b =>
      have hname := Context.name_of_resolve? (Context.resolve?_of_resolve hx)
      cases b with
      | localVariable v =>
          by_cases hv : v.slots = 1
          · simp only [hv, if_true]
            exact (raises_checkOperator _ _ _).bind fun _ => raises_assignLocal o hu hoperand hname
          · simp only [hv, if_false]
            exact Raises.bind (raises_other rfl) fun _ => Raises.pure _
      | globalVariable v =>
          exact (raises_checkOperator _ _ _).bind fun _ => raises_assignGlobal o hu hoperand hname
      | _ => exact Raises.bind (raises_other rfl) fun _ => Raises.pure _

end Assign

section Declare

theorem raises_pushSlots {v : LocalVariable} (hvalue : ∀ e ∈ v.value, e.uses ctx t ⊆ us)
    (count slot : Nat) : Raises (pushSlots o ctx v count slot) t us t := by
  induction count generalizing slot with
  | zero => exact Raises.pure _
  | succ count ih =>
      refine Raises.bind (Raises.aside (fun _ => rfl) fun _ => rfl) fun _ => ?_
      have hrest (value : Param) : Raises (do
          let rest ← pushSlots o ctx v count (slot + 1)
          return Stack.push o.stackList value :: rest) t us t :=
        (ih (slot + 1)).bind fun _ => Raises.pure _
      cases hv : v.value with
      | none => exact (Raises.pure _).bind hrest
      | some e => exact ((raises_expr o e).mono (hvalue e hv)).bind hrest

theorem raises_pushItems (type : ValueType) {items : List Expr}
    (hitems : ∀ e ∈ items, e.uses ctx t ⊆ us) (slot : Nat) :
    Raises (pushItems o ctx type items slot) t us t := by
  induction items generalizing slot with
  | nil => exact Raises.pure _
  | cons e items ih =>
      have hrest := ih (fun e he => hitems e (.tail _ he)) (slot + 1)
      refine (raises_checkType type e).bind fun _ => ?_
      refine Raises.bind (Raises.aside (fun _ => rfl) fun _ => rfl) fun _ => ?_
      refine ((raises_expr o e).mono (hitems e (.head _))).bind fun _ => ?_
      exact hrest.bind fun _ => Raises.pure _

theorem raises_allocate (l : Local) :
    Raises (allocate o ctx l) t (l.initializers.flatMap (Expr.uses ctx t)) t := by
  have hmem : ∀ e ∈ l.initializers,
      e.uses ctx t ⊆ l.initializers.flatMap (Expr.uses ctx t) :=
    fun e he u hu => List.mem_flatMap.mpr ⟨e, he, hu⟩
  obtain v | a := l
  · have hpush := raises_pushSlots o (fun e he => hmem e (Option.mem_toList.mpr he)) v.slots.toNat 0
    have hrest (_ : Unit) : Raises (do
        let blocks ← pushSlots o ctx v v.slots.toNat 0
        modify fun s => { s with muted := false }
        return blocks) t _ t :=
      hpush.bind fun _ => Raises.bind (Raises.aside (fun _ => rfl) fun _ => rfl) fun _ => Raises.pure _
    change Raises (allocateVariable o ctx v) _ _ _
    unfold allocateVariable
    cases v.value with
    | none => exact (Raises.pure ()).bind hrest
    | some e => exact (raises_checkType v.type e).bind hrest
  · exact raises_pushItems o a.type hmem 0

theorem raises_declare (l : Local) :
    Raises (declare o ctx l) t (l.initializers.flatMap (Expr.uses ctx t)) (l.plan ctx t).scopes := by
  refine (raises_allocate o l).bind fun _ => ?_
  refine Raises.bind (Raises.aside (fun _ => rfl) fun _ => rfl) fun _ => ?_
  refine raises_currentScope_bind fun _ => raises_ask_bind fun ⟨result, t'⟩ hdeclare => ?_
  have hreach (ht : t.Reachable) : t'.Reachable := by
    refine ht.call (c := .declare ctx.here l) ?_
    rw [ScopeTree.Call.apply, hdeclare]
    rfl
  refine Raises.bind (Raises.modify (fun _ => rfl) (fun _ _ => rfl) hreach) fun _ => ?_
  rw [Local.plan, hdeclare]
  cases result with
  | ok => exact Raises.pure _
  | error d => exact Raises.bind (raises_other rfl) fun _ => Raises.pure _

end Declare

theorem raises_cleanup (id : Nat) : Raises (cleanup o id) t us t :=
  raises_ask_bind fun _ _ => (raises_traceRelease _).bind fun _ => raises_ask _

theorem raises_unwind (id : Nat) : Raises (unwind o id) t us t := by
  refine raises_ask_bind fun scopes hscopes => Raises.bind ?_ fun _ => raises_ask _
  clear hscopes
  induction scopes with
  | nil => exact Raises.pure ()
  | cons scope scopes ih => exact (raises_traceRelease _).bind fun _ => ih

theorem raises_ret (value : Option Expr) :
    Raises (ret o ctx value) t (value.elim [] (Expr.uses ctx t)) t := by
  refine raises_currentScope_bind fun _ => ?_
  have hrest {us : List Use} (stored : List Block) : Raises (do
      let released ← unwind o ctx.here
      return stored ++ released ++ [.make .stop [.text "this script"]]) t us t :=
    (raises_unwind o ctx.here).bind fun _ => Raises.pure _
  cases value with
  | none => exact (Raises.pure _).bind hrest
  | some e =>
      refine Raises.get_bind fun s _ => ?_
      dsimp only
      cases s.scopes.method with
      | none => exact Raises.bind (Raises.throw _) hrest
      | some m =>
          cases hm : m.returnType with
          | none =>
              simp only [hm]
              refine Raises.bind (raises_other rfl) fun _ => ?_
              exact (Raises.pure _).bind hrest
          | some expected =>
              simp only [hm]
              refine (raises_checkType expected e).bind fun _ => (raises_expr o e).bind fun _ => ?_
              exact (Raises.pure _).bind hrest

theorem raises_unroll (count : Expr) (body : List Block) : Raises (unroll o count body) t us t := by
  unfold unroll
  split
  · dsimp only
    split
    · exact Raises.pure _
    · exact (raises_trace _).bind fun _ => Raises.pure _
    · exact Raises.bind (raises_other rfl) fun _ => Raises.pure _
  · exact Raises.bind (raises_other rfl) fun _ => Raises.pure _

-- The new scope is a child of the current one, and has the next number.
theorem raises_nested (ctx : Context) (t : ScopeTree) (body : List Stmt)
    (hbody : ∀ inner t, Raises (stmts o inner body) t (Stmt.usesAll o inner body t)
      (Stmt.planAll o inner body t).scopes) :
    Raises (nested o ctx fun inner => stmts o inner body) t
      (Use.nested ctx t fun inner t => Stmt.usesAll o inner body t)
      (Plan.nested ctx t fun inner t => Stmt.planAll o inner body t).scopes := by
  refine raises_currentScope_bind fun hin => raises_ask_bind fun opened hopened => ?_
  rw [ScopeTree.createChild_of_lt hin.lt_size] at hopened
  obtain rfl := Except.ok.inj hopened
  refine Raises.bind (Raises.modify (fun _ => rfl) (fun _ _ => rfl) fun ht => ?_) fun _ =>
    (hbody _ _).bind fun _ => (raises_cleanup o _).bind fun _ => Raises.pure _
  refine ht.call (c := .createChild ctx.here) ?_
  rw [ScopeTree.Call.apply, ScopeTree.createChild_of_lt hin.lt_size]
  rfl

mutual

theorem raises_stmt (ctx : Context) (t : ScopeTree) :
    ∀ s : Stmt, Raises (stmt o ctx s) t (s.uses o ctx t) (s.plan o ctx t).scopes
  | .declare l => raises_declare o l
  | .assign x a loc => by
      refine raises_assign o (.head _) fun e he => ?_
      rw [Option.mem_def] at he
      simp only [Stmt.uses, he, Option.elim_some]
      exact List.subset_cons_self _ _
  | .repeatLoop inline count body _ => by
      have hbody := raises_nested o ctx t body fun inner t => raises_stmts inner t body
      rw [stmt, Stmt.plan, Stmt.uses]
      refine (hbody.mono (List.subset_append_left _ _)).bind fun _ => ?_
      cases inline with
      | true => exact raises_unroll o count _
      | false => exact ((raises_expr o count).mono (List.subset_append_right _ _)).bind fun _ =>
          Raises.pure _
  | .whileLoop condition body _ => by
      have hbody := raises_nested o ctx t body fun inner t => raises_stmts inner t body
      rw [stmt, Stmt.plan, Stmt.uses]
      refine ((raises_expr o condition).mono (List.subset_append_left _ _)).bind fun _ => ?_
      exact (hbody.mono (List.subset_append_right _ _)).bind fun _ => Raises.pure _
  | .forever body _ => by
      have hbody := raises_nested o ctx t body fun inner t => raises_stmts inner t body
      exact hbody.bind fun _ => Raises.pure _
  | .branch condition thenBody elseBody _ => by
      have hfirst := raises_nested o ctx t thenBody fun inner t => raises_stmts inner t thenBody
      have hsecond (t : ScopeTree) :=
        raises_nested o ctx t elseBody fun inner t => raises_stmts inner t elseBody
      rw [stmt, Stmt.plan, Stmt.uses]
      refine ((raises_expr o condition).mono (List.subset_append_left _ _)).bind fun _ => ?_
      refine Raises.mono ?_ (List.subset_append_right _ _)
      refine (hfirst.mono (List.subset_append_left _ _)).bind fun _ => ?_
      by_cases helse : elseBody.isEmpty
      · simp only [helse, if_true]
        exact Raises.pure _
      · simp only [helse, Bool.false_eq_true, if_false]
        exact ((hsecond _).mono (List.subset_append_right _ _)).bind fun _ => Raises.pure _
  | .switch _ cases _ => raises_switch ctx t cases
  | .ret value _ => raises_ret o value
  | .scope body _ => raises_nested o ctx t body fun inner t => raises_stmts inner t body

theorem raises_stmts (ctx : Context) (t : ScopeTree) :
    ∀ body : List Stmt,
      Raises (stmts o ctx body) t (Stmt.usesAll o ctx body t) (Stmt.planAll o ctx body t).scopes
  | [] => Raises.pure _
  | s :: rest => by
      have hfirst := raises_stmt ctx t s
      have hrest := raises_stmts ctx (s.plan o ctx t).scopes rest
      refine (hfirst.mono (List.subset_append_left _ _)).bind fun _ => ?_
      exact (hrest.mono (List.subset_append_right _ _)).bind fun _ => Raises.pure _

theorem raises_switch (ctx : Context) (t : ScopeTree) :
    ∀ cases : List Case, Raises (switch o ctx cases) t (Stmt.usesCases o ctx cases t)
      (Stmt.planCases o ctx cases t).scopes
  | [] => Raises.pure _
  | .mk conditions body isDefault loc :: rest => by
      have hbody := raises_nested o ctx t body fun inner t => raises_stmts inner t body
      have hrest (t : ScopeTree) := raises_switch ctx t rest
      rw [switch, Stmt.planCases, Stmt.usesCases]
      by_cases hdefault : (rest.isEmpty && isDefault) = true
      · simp only [hdefault, if_true, List.nil_append]
        exact hbody.mono (List.subset_append_left _ _)
      · simp only [hdefault, Bool.false_eq_true, if_false]
        refine ((raises_values o conditions).mono (List.subset_append_left _ _)).bind fun _ => ?_
        refine Raises.mono ?_ (List.subset_append_right _ _)
        refine (hbody.mono (List.subset_append_left _ _)).bind fun _ => ?_
        by_cases hlast : rest.isEmpty
        · simp only [hlast, if_true]
          exact Raises.pure _
        · simp only [hlast, Bool.false_eq_true, if_false]
          exact ((hrest _).mono (List.subset_append_right _ _)).bind fun _ => Raises.pure _

end

end Lower

-- With `ctx.bindings t` everything that is visible, its names are the visible names, and a name
-- stands for the first of its name. So a name stands for nothing exactly if it is not visible. Where
-- the scope is missing, neither is answered. Whatever the session and its end, a name that is
-- reported as not defined in a statement is used there, at a place where it stands for nothing and
-- where each suggestion is another name that stands for something.
theorem visible_names_resolve {t : ScopeTree} (ht : t.Reachable) (ctx : Context) :
    (ctx.Within t → ∃ names, ctx.visibleNames t = .ok names ∧
      names = (ctx.bindings t).map Binding.name ∧
      (∀ x, ctx.resolve t x = .ok ((ctx.bindings t).find? (·.name == x))) ∧
      ∀ x, ctx.resolve t x = .ok none ↔ x ∉ names) ∧
    (∀ id, ctx.scope = some id → t.size ≤ id →
      ctx.visibleNames t = .error ⟨id⟩ ∧ ∀ x, ctx.resolve t x = .error ⟨id⟩) ∧
    ∀ (o : Options) (stmt : Stmt) (s : Session), s.scopes = t →
      ∃ ds, (Lower.stmt o ctx stmt s).2.report.diagnostics = s.report.diagnostics ++ ds ∧
        ∀ d ∈ ds, d.kind = .notDefined → ∃ u ∈ stmt.uses o ctx t, ∃ names,
          u.scopes.Reachable ∧ u.resolve = .ok none ∧ u.ctx.visibleNames u.scopes = .ok names ∧
            d = .notDefined u.name u.loc (suggest u.name names) ∧
            ∀ y ∈ d.suggestions, y ≠ u.name ∧ ∃ b, u.ctx.resolve u.scopes y = .ok (some b) := by
  refine ⟨fun hin => ?_, fun id hid hmissing => ?_, fun o stmt s hs => ?_⟩
  · refine ⟨_, hin.visibleNames_eq, ctx.names_eq_map t, fun x => ?_, fun x => ?_⟩
    · rw [hin.resolve_eq, Context.resolve?_eq_find? ht.valid]
    · rw [hin.resolve_eq, Except.ok.injEq]
      exact ctx.resolve?_eq_none_iff t x
  · exact ⟨Context.visibleNames_of_missing hid hmissing, Context.resolve_of_missing hid hmissing⟩
  · obtain ⟨⟨ds, hds, hraised⟩, -⟩ := Lower.raises_stmt o ctx t stmt ht s hs
    refine ⟨ds, hds, fun d hd hkind => ?_⟩
    obtain ⟨u, hu, hreach, hnone, names, hnames, rfl⟩ := hraised d hd hkind
    exact ⟨u, hu, names, hreach, hnone, hnames, rfl, fun y hy =>
      Context.resolve_of_mem_suggest hnames hy⟩

-- A scope in which a local is misspelled after its declaration, and used outside where it is gone.
def Stmt.misspelled : Stmt :=
  let at0 (start : UInt32) : Location := ⟨0, ⟨start, start + 1⟩⟩
  .repeatLoop false (.lookup "count" (at0 2)) [
    .declare (.variable ⟨"count", .number, none, 1, at0 0⟩),
    .assign "cout" .increment (at0 1)] (at0 3)

theorem visible_names_resolve_misspelled :
    Session.sample.scopes.Reachable ∧
      ((Lower.stmt {} (Context.sample.withScope 0) .misspelled Session.sample).2.report.diagnostics =
        [.notDefined "cout" ⟨0, ⟨1, 2⟩⟩ ["count"], .notDefined "count" ⟨0, ⟨2, 3⟩⟩ []]) ∧
      ∃ u ∈ Stmt.misspelled.uses {} (Context.sample.withScope 0) Session.sample.scopes,
        u.resolve = .ok none ∧ ∃ b, u.ctx.resolve u.scopes "count" = .ok (some b) := by
  have hreach : Session.sample.scopes.Reachable :=
    (ScopeTree.Reachable.new _).call (c := .createRoot) rfl
  have hreported : (Lower.stmt {} (Context.sample.withScope 0) .misspelled
      Session.sample).2.report.diagnostics =
      [.notDefined "cout" ⟨0, ⟨1, 2⟩⟩ ["count"], .notDefined "count" ⟨0, ⟨2, 3⟩⟩ []] := by
    decide +kernel
  obtain ⟨-, -, hstmt⟩ := visible_names_resolve hreach (Context.sample.withScope 0)
  obtain ⟨ds, hds, hraised⟩ := hstmt {} .misspelled Session.sample rfl
  obtain rfl : ds = _ := hds.symm.trans hreported
  obtain ⟨u, hu, names, -, hnone, -, -, hsuggested⟩ := hraised _ (.head _) rfl
  exact ⟨hreach, hreported, u, hu, hnone, (hsuggested "count" (.head _)).2⟩

end SpriteCompiler
