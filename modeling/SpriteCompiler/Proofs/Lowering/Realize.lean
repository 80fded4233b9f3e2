import SpriteCompiler.Lowering.Method
import SpriteCompiler.Proofs.Lowering.Step
import SpriteCompiler.Proofs.Code.Growth

namespace SpriteCompiler

-- The session after what a plan says was done.
def Core.after (c : Core) (p : Plan) : Core :=
  { c with scopes := p.scopes, diagnostics := c.diagnostics ++ p.problems }

namespace Lower

variable {ctx : Context} {c : Core} {x : String}

theorem gives_resolve? (hr : ctx.Within c.scopes) (x : String) :
    Gives (resolve? ctx x) c (ctx.resolve? c.scopes x) c :=
  gives_ask (hr.resolve_eq x)

theorem gives_reportNotDefined (hr : ctx.Within c.scopes) (x : String) (loc : Location) :
    Gives (reportNotDefined ctx x loc) c () (c.reported [ctx.notDefined c.scopes x loc]) :=
  (gives_ask hr.visibleNames_eq).bind (gives_report _ c)

theorem gives_cleanup (o : Options) {id : Nat} (hid : id < c.scopes.size) :
    Gives (cleanup o id) c (Stack.releaseAll o.stackList (c.scopes.locals id)) c := by
  obtain ⟨scope, hscope⟩ := ScopeTree.get?_isSome hid
  refine (gives_ask (ScopeTree.scope_of_get? hscope)).bind ((gives_traceRelease _ c).bind ?_)
  exact gives_ask (ScopeTree.cleanup_of_lt hid o.stackList)

theorem gives_unwind (o : Options) {id : Nat} (hid : id < c.scopes.size) :
    Gives (unwind o id) c ((c.scopes.lineage id).flatMap fun i =>
      Stack.releaseAll o.stackList (c.scopes.locals i)) c := by
  refine (gives_ask (ScopeTree.outward_of_lt hid)).bind ?_
  exact (gives_forM_traceRelease (fun q : Nat × Scope => q.2.locals) _ c).bind
    (gives_ask (ScopeTree.unwind_of_lt hid o.stackList))

theorem gives_stackDepth {l : Local} (hr : ctx.InScope c.scopes)
    (h : c.scopes.search? ctx.here x = some l) :
    Gives (stackDepth ctx x) c (Site.depth ⟨c.scopes, ctx.here, x, c.pendingSlots⟩) c := by
  obtain ⟨_, _, after, _, _, hdepth⟩ := ScopeTree.layout_split h
  refine (gives_currentScope hr.inside hr.lt_size).bind
    ((gives_ask (ScopeTree.depth_of_lt hr.lt_size x)).bind ?_)
  simp only [hdepth, Site.depth, Option.getD_some]
  refine Gives.get_bind fun s hs => ?_
  have hpending : s.pendingSlots = c.pendingSlots := congrArg Core.pendingSlots hs
  rw [hpending]
  exact Gives.pure _ c

theorem gives_placeholder (d : Diagnostic) (c : Core) :
    Gives (placeholder d) c .empty (c.reported [d]) :=
  (gives_report d c).bind (Gives.pure _ _)

theorem gives_lookup (o : Options) (hr : ctx.Within c.scopes) (x : String) (loc : Location) :
    Gives (lookup o ctx x loc) c ((ctx.operand c.scopes c.pendingSlots x).emit o)
      (c.reported (ctx.problems c.scopes x loc)) := by
  refine (gives_resolve? hr x).bind ?_
  unfold Context.operand Context.problems
  cases hb : ctx.resolve? c.scopes x with
  | none => exact (gives_reportNotDefined hr x loc).bind (Gives.pure _ _)
  | some b =>
      cases b with
      | constant d =>
          rw [Core.reported_nil]
          exact Gives.pure _ c
      | globalVariable d =>
          rw [Core.reported_nil]
          exact Gives.pure _ c
      | globalList d =>
          rw [Core.reported_nil]
          exact Gives.pure _ c
      | parameter d =>
          rw [Core.reported_nil]
          exact Gives.pure _ c
      | localVariable v =>
          by_cases hv : v.slots = 1
          · simp only [hv, if_true, Core.reported_nil]
            have hin := hr.inScope (l := .variable v) hb
            have hsearch := Context.search?_of_resolve? (l := .variable v) hin.inside hb
            exact (gives_stackDepth hin hsearch).bind (Gives.pure _ c)
          · simp only [hv, if_false]
            exact gives_placeholder _ c
      | localArray d => exact gives_placeholder _ c
      | method d => exact gives_placeholder _ c

theorem gives_expr (o : Options) (hr : ctx.Within c.scopes) (e : Expr) :
    Gives (expr o ctx e) c ((e.operand ctx c.scopes c.pendingSlots).emit o)
      (c.reported (e.problems ctx c.scopes)) := by
  induction e generalizing c with
  | literal value _ => simpa [expr, Expr.operand, Operand.emit, Expr.problems] using Gives.pure _ c
  | lookup x loc => exact gives_lookup o hr x loc
  | item x index loc ih =>
      rw [expr, Expr.operand, Expr.problems]
      refine (gives_resolve? hr x).bind ?_
      cases hb : ctx.resolve? c.scopes x with
      | none => exact (gives_reportNotDefined hr x loc).bind (Gives.pure _ _)
      | some b =>
          cases b with
          | globalList l => exact (ih hr).bind (Gives.pure _ _)
          | localArray a =>
              have hin := hr.inScope (l := .array a) hb
              have hsearch := Context.search?_of_resolve? (l := .array a) hin.inside hb
              refine (ih hr).bind ?_
              have hdepth := gives_stackDepth (c := c.reported (index.problems ctx c.scopes))
                (x := x) (l := .array a) (by simpa using hin) (by simpa using hsearch)
              simp only [Core.reported_scopes, Core.reported_pendingSlots] at hdepth
              exact hdepth.bind (Gives.pure _ _)
          | _ => exact gives_placeholder _ c
  | unary op operand loc ih => exact (ih hr).bind (Gives.pure _ _)
  | binary op left right loc ihl ihr =>
      rw [expr, Expr.problems, Core.reported_append]
      refine (ihl hr).bind ?_
      have hright := ihr (c := c.reported (left.problems ctx c.scopes)) (by simpa using hr)
      simp only [Core.reported_scopes, Core.reported_pendingSlots] at hright
      exact hright.bind (Gives.pure _ _)

-- The remaining parts of statements: checks, assignments and declarations.

theorem gives_checkType (hr : ctx.Within c.scopes) (expected : ValueType) (e : Expr) :
    Gives (checkType ctx expected e) c () (c.reported (e.mismatches ctx c.scopes expected)) := by
  refine (gives_ask (hr.inferType_eq e)).bind ?_
  rw [Expr.mismatches]
  by_cases h : expected.accepts (e.typeAt ctx c.scopes)
  · simp only [h, if_true, Core.reported_nil]
    exact Gives.pure () c
  · simp only [h, Bool.false_eq_true, if_false]
    exact gives_report _ c

theorem gives_checkOperator (op : AssignOp) (target : ValueType) (loc : Location) (c : Core) :
    Gives (checkOperator op target loc) c () (c.reported (op.mismatches target loc)) := by
  unfold checkOperator AssignOp.mismatches
  cases op.targetType? with
  | none =>
      rw [Core.reported_nil]
      exact Gives.pure () c
  | some required =>
      by_cases h : required.accepts target
      · simp only [h, if_true, Core.reported_nil]
        exact Gives.pure () c
      · simp only [h, Bool.false_eq_true, if_false]
        exact gives_report _ c

theorem gives_joined (o : Options) (hr : ctx.Within c.scopes) (e : Expr) (loc : Location)
    (hx : ctx.problems c.scopes x loc = []) :
    Gives (joined o ctx x e loc) c
      (BinaryOp.concat.apply o ((ctx.operand c.scopes c.pendingSlots x).emit o)
        ((e.operand ctx c.scopes c.pendingSlots).emit o) loc)
      (c.reported (e.problems ctx c.scopes)) := by
  have hlookup := gives_lookup o hr x loc
  rw [hx, Core.reported_nil] at hlookup
  exact hlookup.bind ((gives_expr o hr e).bind (Gives.pure _ _))

-- An operator other than `=` and `.=` has a step.
theorem gives_step (o : Options) (hr : ctx.Within c.scopes) (hp : c.pendingSlots = 0)
    (a : Assignment) (loc : Location) (hset : ∀ e, a ≠ .set e) (hjoin : ∀ e, a ≠ .join e) :
    Gives (step o ctx a loc) c ((a.amount ctx c.scopes loc).emit o)
      (c.reported (a.problems ctx c.scopes)) := by
  have hexpr (e : Expr) := gives_expr o hr e
  simp only [hp] at hexpr
  cases a with
  | set e => exact absurd rfl (hset e)
  | join e => exact absurd rfl (hjoin e)
  | add e => exact hexpr e
  | subtract e => exact (hexpr e).bind (Gives.pure _ _)
  | increment =>
      simp only [Assignment.problems, Assignment.operand?, Option.elim_none, Core.reported_nil]
      exact Gives.pure _ c
  | decrement =>
      simp only [Assignment.problems, Assignment.operand?, Option.elim_none, Core.reported_nil]
      exact Gives.pure _ c

theorem gives_assignLocal (o : Options) (hr : ctx.Within c.scopes) (hp : c.pendingSlots = 0)
    {v : LocalVariable} (hx : ctx.resolve? c.scopes x = some (.localVariable v)) (hv : v.slots = 1)
    (a : Assignment) (loc : Location) :
    Gives (assignLocal o ctx v a loc) c
      (Command.emitAll o [.store ⟨c.scopes, ctx.here, x, 0⟩
        (a.result ctx c.scopes loc (.cell ⟨c.scopes, ctx.here, x, 0⟩))])
      (c.reported (a.problems ctx c.scopes)) := by
  have hname : v.name = x := Context.name_of_resolve? hx
  have hin := hr.inScope (l := .variable v) hx
  have hdepth := gives_stackDepth hin (Context.search?_of_resolve? (l := .variable v) hin.inside hx)
  have hoperand : ctx.operand c.scopes 0 x = .cell ⟨c.scopes, ctx.here, x, 0⟩ := by
    simp only [Context.operand, hx, hv, if_true]
  have hclean : ctx.problems c.scopes x loc = [] := by
    simp only [Context.problems, hx, hv, if_true]
  rw [hp] at hdepth
  rw [assignLocal, hname]
  refine hdepth.bind ?_
  have hstep (hset : ∀ e, a ≠ .set e) (hjoin : ∀ e, a ≠ .join e) :=
    gives_step o hr hp a loc hset hjoin
  cases a with
  | set e =>
      have he := gives_expr o hr e
      rw [hp] at he
      exact he.bind (Gives.pure _ _)
  | join e =>
      have he := gives_joined o hr e loc hclean
      rw [hp, hoperand] at he
      exact he.bind (Gives.pure _ _)
  | _ => exact (hstep (by simp) (by simp)).bind ((Gives.pure _ _).bind (Gives.pure _ _))

theorem gives_assignGlobal (o : Options) (hr : ctx.Within c.scopes) (hp : c.pendingSlots = 0)
    {v : GlobalVariable} (hx : ctx.resolve? c.scopes x = some (.globalVariable v))
    (a : Assignment) (loc : Location) :
    Gives (assignGlobal o ctx v a loc) c (Command.emitAll o (a.code ctx c.scopes loc x))
      (c.reported (a.problems ctx c.scopes)) := by
  have hname : v.name = x := Context.name_of_resolve? hx
  have hoperand : ctx.operand c.scopes 0 x = .global x := by
    simp only [Context.operand, hx, hname]
  have hclean : ctx.problems c.scopes x loc = [] := by
    simp only [Context.problems, hx]
  simp only [Assignment.code, hx, assignGlobal, hname]
  have hstep (hset : ∀ e, a ≠ .set e) (hjoin : ∀ e, a ≠ .join e) :=
    gives_step o hr hp a loc hset hjoin
  cases a with
  | set e =>
      have he := gives_expr o hr e
      rw [hp] at he
      exact he.bind (Gives.pure _ _)
  | join e =>
      have he := gives_joined o hr e loc hclean
      rw [hp, hoperand] at he
      exact he.bind (Gives.pure _ _)
  | _ => exact (hstep (by simp) (by simp)).bind (Gives.pure _ _)

theorem gives_assign (o : Options) (hr : ctx.Within c.scopes) (hp : c.pendingSlots = 0)
    (a : Assignment) (loc : Location) :
    Gives (assign o ctx x a loc) c (Command.emitAll o (a.code ctx c.scopes loc x))
      (c.reported (a.allProblems ctx c.scopes loc x)) := by
  rw [assign]
  refine (gives_resolve? hr x).bind ?_
  have hcheck (type : ValueType) := gives_checkOperator a.op type loc c
  unfold Assignment.allProblems
  cases hx : ctx.resolve? c.scopes x with
  | none =>
      simp only [Assignment.code, hx]
      exact (gives_reportNotDefined hr x loc).bind (Gives.pure _ _)
  | some b =>
      cases b with
      | localVariable v =>
          by_cases hv : v.slots = 1
          · simp only [hv, if_true, Core.reported_append, Assignment.code, hx]
            have hassign := gives_assignLocal (c := c.reported (a.op.mismatches v.type loc)) o
              (by simpa using hr) (by simpa using hp) (by simpa using hx) hv a loc
            simp only [Core.reported_scopes] at hassign
            exact (hcheck v.type).bind hassign
          · simp only [hv, if_false, Assignment.code, hx]
            exact (gives_report _ c).bind (Gives.pure _ _)
      | globalVariable v =>
          rw [Core.reported_append]
          have hassign := gives_assignGlobal (c := c.reported (a.op.mismatches v.type loc)) o
            (by simpa using hr) (by simpa using hp) (by simpa using hx) a loc
          simp only [Core.reported_scopes] at hassign
          exact (hcheck v.type).bind hassign
      | _ =>
          simp only [Assignment.code, hx]
          exact (gives_report _ c).bind (Gives.pure _ _)

-- Pushing from slot number `slot` on. How many slots are pending afterwards does not matter, since
-- the declaration is then finished.
theorem gives_pushSlots (o : Options) (v : LocalVariable) (hr : ctx.InScope c.scopes)
    (count slot : Nat) :
    ∃ pending muted, Gives (pushSlots o ctx v count slot) c
      (Command.emitAll o ((List.range' slot count).map fun k =>
        .push ⟨ctx.here, .variable v, k⟩ (Local.initial ctx c.scopes (.variable v) k)))
      { c with
        diagnostics := c.diagnostics ++
          if slot = 0 ∧ count ≠ 0 then v.value.elim [] (·.problems ctx c.scopes) else []
        pendingSlots := pending
        muted := muted } := by
  induction count generalizing c slot with
  | zero =>
      refine ⟨c.pendingSlots, c.muted, ?_⟩
      simp only [ne_eq, not_true_eq_false, and_false, if_false, List.append_nil]
      exact Gives.pure _ c
  | succ count ih =>
      -- The initializer is compiled again for each slot, but only the first time reports.
      let now : Core := { c with pendingSlots := slot, muted := 0 < slot }
      let later : Core := now.reported (v.value.elim [] (·.problems ctx c.scopes))
      have hscopes : later.scopes = c.scopes := by simp [later, now]
      have hlater : later.diagnostics = c.diagnostics ++
          if slot = 0 ∧ count + 1 ≠ 0 then v.value.elim [] (·.problems ctx c.scopes) else [] := by
        by_cases hslot : slot = 0 <;> simp [later, now, Core.reported, hslot, Nat.pos_iff_ne_zero]
      obtain ⟨pending, muted, hrest⟩ := ih (c := later) (by rw [hscopes]; exact hr) (slot + 1)
      refine ⟨pending, muted, ?_⟩
      have htail : Gives (do
            let rest ← pushSlots o ctx v count (slot + 1)
            return Stack.push o.stackList
              ((Local.initial ctx c.scopes (.variable v) slot).emit o) :: rest) later
          (Command.emitAll o ((List.range' slot (count + 1)).map fun k =>
            .push ⟨ctx.here, .variable v, k⟩ (Local.initial ctx c.scopes (.variable v) k)))
          { c with diagnostics := later.diagnostics, pendingSlots := pending, muted := muted } := by
        rw [hscopes] at hrest
        simp only [Nat.add_eq_zero_iff, one_ne_zero, and_false, false_and, if_false,
          List.append_nil] at hrest
        exact hrest.bind (Gives.pure _ _)
      rw [← hlater, pushSlots]
      refine Gives.modify_bind (d := now) (fun s hs => by subst hs; rfl) ?_
      simp only [Local.initial, later] at htail ⊢
      cases hval : v.value with
      | none =>
          simp only [hval, Option.elim_none, Core.reported_nil] at htail ⊢
          exact (Gives.pure _ now).bind htail
      | some e =>
          simp only [hval, Option.elim_some] at htail
          exact (gives_expr (c := now) o hr.within e).bind htail

theorem gives_pushItems (o : Options) (a : LocalArray) (hr : ctx.InScope c.scopes)
    (hm : c.muted = false) (items : List Expr) (slot : Nat) (hitems : a.items.drop slot = items) :
    ∃ pending, Gives (pushItems o ctx a.type items slot) c
      (Command.emitAll o ((List.range' slot items.length).map fun k =>
        .push ⟨ctx.here, .array a, k⟩ (Local.initial ctx c.scopes (.array a) k)))
      { c with
        diagnostics := c.diagnostics ++ items.flatMap fun e =>
          e.mismatches ctx c.scopes a.type ++ e.problems ctx c.scopes
        pendingSlots := pending } := by
  induction items generalizing c slot with
  | nil =>
      refine ⟨c.pendingSlots, ?_⟩
      simp only [List.flatMap_nil, List.append_nil]
      exact Gives.pure _ c
  | cons e items ih =>
      let checked : Core := c.reported (e.mismatches ctx c.scopes a.type)
      let now : Core := { checked with pendingSlots := slot }
      let later : Core := now.reported (e.problems ctx c.scopes)
      have hnow : now.scopes = c.scopes := by simp [now, checked]
      have hscopes : later.scopes = c.scopes := by simp [later, hnow]
      have hmuted : later.muted = false := by simp [later, now, checked, hm]
      have hlater : later.diagnostics = c.diagnostics ++
          (e.mismatches ctx c.scopes a.type ++ e.problems ctx c.scopes) := by
        simp [later, now, checked, Core.reported, hm]
      have hdrop : a.items.drop (slot + 1) = items := by
        rw [← List.drop_drop, hitems]
        rfl
      have hitem : a.items[slot]? = some e := by
        rw [← List.head?_drop, hitems]
        rfl
      obtain ⟨pending, hrest⟩ := ih (c := later) (by rw [hscopes]; exact hr) hmuted (slot + 1) hdrop
      refine ⟨pending, ?_⟩
      rw [hscopes, hlater, hmuted] at hrest
      rw [List.flatMap_cons, ← List.append_assoc, pushItems]
      refine (gives_checkType hr.within a.type e).bind ?_
      refine Gives.modify_bind (d := now) (fun s hs => by simp only [now, checked, ← hs]; rfl) ?_
      have hinit : Local.initial ctx c.scopes (.array a) slot = e.operand ctx c.scopes slot := by
        simp only [Local.initial, hitem]
      have hvalue := gives_expr (c := now) o (by rw [hnow]; exact hr.within) e
      rw [hnow, ← hinit] at hvalue
      rw [hm]
      exact hvalue.bind (hrest.bind (Gives.pure _ _))

theorem gives_allocate (o : Options) (hr : ctx.InScope c.scopes) (hm : c.muted = false) (l : Local) :
    ∃ pending, Gives (allocate o ctx l) c (Command.emitAll o (l.pushes ctx c.scopes))
      { c with
        diagnostics := c.diagnostics ++ l.problems ctx c.scopes
        pendingSlots := pending } := by
  obtain v | a := l
  · have hslots : v.slots = 0 ↔ v.slots.toNat = 0 := UInt32.toNat_inj.symm
    rw [allocate, allocateVariable]
    -- the push after the type check, and the end of the muted slots
    have hpush (checked : Core) (hscopes : checked.scopes = c.scopes)
        (hmuted : checked.muted = false) :
        ∃ pending, Gives (do
            let blocks ← pushSlots o ctx v v.slots.toNat 0
            modify fun s => { s with muted := false }
            return blocks) checked (Command.emitAll o (Local.pushes ctx c.scopes (.variable v)))
          { checked with
            diagnostics := checked.diagnostics ++
              if v.slots = 0 then [] else v.value.elim [] (·.problems ctx c.scopes)
            pendingSlots := pending } := by
      obtain ⟨pending, muted, hpush⟩ :=
        gives_pushSlots (c := checked) o v (by rw [hscopes]; exact hr) v.slots.toNat 0
      refine ⟨pending, ?_⟩
      rw [← List.range_eq_range', hscopes] at hpush
      simp only [true_and, ne_eq, ← hslots, ite_not] at hpush
      refine hpush.bind (Gives.modify_bind (fun s hs => ?_) (Gives.pure _ _))
      change { s.core with muted := false } = _
      rw [hs, hmuted, hscopes]
    unfold Local.problems
    cases hval : v.value with
    | none =>
        obtain ⟨pending, hpush⟩ := hpush c rfl hm
        simp only [hval, Option.elim_none, ite_self, List.append_nil] at hpush ⊢
        exact ⟨pending, hpush⟩
    | some e =>
        obtain ⟨pending, hpush⟩ := hpush (c.reported (e.mismatches ctx c.scopes v.type))
          (by simp) (by simp [hm])
        refine ⟨pending, (gives_checkType hr.within v.type e).bind ?_⟩
        simp only [hval, Option.elim_some, Core.reported, hm, Bool.false_eq_true, if_false,
          List.append_assoc] at hpush ⊢
        exact hpush
  · obtain ⟨pending, hpush⟩ := gives_pushItems o a hr hm a.items 0 rfl
    rw [← List.range_eq_range'] at hpush
    exact ⟨pending, hpush⟩

theorem gives_declare (o : Options) (hr : ctx.InScope c.scopes) (hm : c.muted = false)
    (hp : c.pendingSlots = 0) (l : Local) :
    Gives (declare o ctx l) c (Command.emitAll o (l.plan ctx c.scopes).code)
      { c with
        scopes := (l.plan ctx c.scopes).scopes
        diagnostics := c.diagnostics ++ (l.plan ctx c.scopes).problems } := by
  obtain ⟨pending, hpush⟩ := gives_allocate o hr hm l
  let now : Core := { c with diagnostics := c.diagnostics ++ l.problems ctx c.scopes }
  rw [declare]
  refine hpush.bind (Gives.modify_bind (d := now) (fun s hs => ?_) ?_)
  · change { s.core with pendingSlots := 0 } = now
    rw [hs, ← hp]
  refine (gives_currentScope (c := now) hr.inside hr.lt_size).bind ?_
  rw [Local.plan]
  obtain ⟨t, hresult⟩ | ⟨d, hresult⟩ := ScopeTree.exists_declare hr.lt_size l
  · rw [hresult]
    refine (gives_ask (c := now) hresult).bind ?_
    refine Gives.modify_bind (fun s hs => ?_) (Gives.pure _ _)
    change { s.core with scopes := t } = _
    rw [hs]
  · have hreport := gives_report (.duplicateDeclaration l.name l.location (some d.first)) now
    rw [Core.reported_of_not_muted (show now.muted = false from hm)] at hreport
    simp only [now, List.append_assoc] at hreport
    rw [hresult]
    refine (gives_ask (c := now) hresult).bind ?_
    refine Gives.modify_bind (d := now) (fun s hs => ?_) ?_
    · change { s.core with scopes := c.scopes } = now
      rw [hs]
    · exact hreport.bind (Gives.pure _ _)

-- Only a return with a value asks for the method.
theorem gives_ret (o : Options) (hr : ctx.InScope c.scopes) (hp : c.pendingSlots = 0)
    (value : Option Expr) (hv : value.isSome → c.scopes.method.isSome) :
    Gives (ret o ctx value) c
      (Command.emitAll o (storeResult o ctx c.scopes value ++
        ((c.scopes.lineage ctx.here).flatMap c.scopes.releases ++ [.stop])))
      (c.reported (resultProblems ctx c.scopes value)) := by
  have hunwind (ds : List Diagnostic) :=
    gives_unwind (c := c.reported ds) o (show ctx.here < _ by simpa using hr.lt_size)
  simp only [Core.reported_scopes] at hunwind
  have hblocks : Command.emitAll o (storeResult o ctx c.scopes value ++
      ((c.scopes.lineage ctx.here).flatMap c.scopes.releases ++ [.stop])) =
      Command.emitAll o (storeResult o ctx c.scopes value) ++
        ((c.scopes.lineage ctx.here).flatMap fun i =>
          Stack.releaseAll o.stackList (c.scopes.locals i)) ++
        [.make .stop [.text "this script"]] := by
    simp only [Command.emitAll_append, Command.emitAll_flatMap, ScopeTree.emitAll_releases,
      List.append_assoc]
    rfl
  rw [hblocks, ret]
  refine (gives_currentScope hr.inside hr.lt_size).bind ?_
  cases value with
  | none =>
      have := hunwind []
      rw [Core.reported_nil] at this
      simp only [resultProblems, Core.reported_nil]
      exact (Gives.pure _ _).bind (this.bind (Gives.pure _ _))
  | some e =>
      obtain ⟨m, hmethod⟩ := Option.isSome_iff_exists.mp (hv rfl)
      refine Gives.get_bind fun s hs => ?_
      have hscopes : s.scopes = c.scopes := congrArg Core.scopes hs
      simp only [hscopes, hmethod, storeResult, resultProblems]
      cases m.returnType with
      | none =>
          exact (gives_report _ c).bind
            ((Gives.pure _ _).bind ((hunwind _).bind (Gives.pure _ _)))
      | some expected =>
          have hvalue := gives_expr (c := c.reported (e.mismatches ctx c.scopes expected)) o
            (by simpa using hr.within) e
          simp only [Core.reported_scopes, Core.reported_pendingSlots, hp,
            ← Core.reported_append] at hvalue
          exact (gives_checkType hr.within expected e).bind
            (hvalue.bind ((Gives.pure _ _).bind ((hunwind _).bind (Gives.pure _ _))))

theorem gives_unroll (o : Options) (count : Expr) (body : List Block) (c : Core) :
    Gives (unroll o count body) c (List.replicate ((count.copies o).getD 0) body).flatten
      (c.reported (count.countProblems o)) := by
  unfold unroll Expr.copies Expr.countProblems
  cases count.literal? with
  | none => exact (gives_report _ c).bind (Gives.pure _ _)
  | some value =>
      cases value with
      | number x =>
          simp only
          cases unrolling o.maxInlineRepetitions.toNat x with
          | tooMany => exact (gives_report _ c).bind (Gives.pure _ _)
          | times n =>
              rw [Core.reported_nil]
              cases n with
              | zero => exact Gives.pure _ c
              | succ n => exact (gives_trace _ c).bind (Gives.pure _ c)
      | _ => exact (gives_report _ c).bind (Gives.pure _ _)

-- Whole statements.

theorem gives_value (o : Options) (hr : ctx.Within c.scopes) (hm : c.muted = false)
    (hp : c.pendingSlots = 0) (e : Expr) :
    Gives (expr o ctx e) c ((e.operand ctx c.scopes 0).emit o)
      { c with diagnostics := c.diagnostics ++ e.problems ctx c.scopes } := by
  have he := gives_expr o hr e
  rwa [hp, Core.reported_of_not_muted hm] at he

theorem gives_values (o : Options) (hr : ctx.Within c.scopes) (hm : c.muted = false)
    (hp : c.pendingSlots = 0) (es : List Expr) :
    Gives (es.mapM (expr o ctx)) c (es.map fun e => (e.operand ctx c.scopes 0).emit o)
      { c with diagnostics := c.diagnostics ++ es.flatMap fun e => e.problems ctx c.scopes } := by
  induction es generalizing c with
  | nil =>
      simp only [List.flatMap_nil, List.append_nil]
      exact Gives.pure _ c
  | cons e es ih =>
      have hrest := ih (c := { c with diagnostics := c.diagnostics ++ e.problems ctx c.scopes })
        hr hm hp
      simp only [List.append_assoc] at hrest
      rw [List.mapM_cons]
      exact (gives_value o hr hm hp e).bind (hrest.bind (Gives.pure _ _))

-- The new scope is still there when its locals are released.
theorem gives_nested (o : Options) (hr : ctx.Ready c.scopes) (body : List Stmt)
    (hbody : ∀ {ctx : Context} {d : Core}, ctx.Ready d.scopes → d.muted = c.muted →
      d.pendingSlots = c.pendingSlots →
      Gives (stmts o ctx body) d (Command.emitAll o (Stmt.planAll o ctx body d.scopes).code)
        (d.after (Stmt.planAll o ctx body d.scopes))) :
    Gives (nested o ctx fun inner => stmts o inner body) c
      (Command.emitAll o (Plan.nested ctx c.scopes fun inner t => Stmt.planAll o inner body t).code)
      (c.after (Plan.nested ctx c.scopes fun inner t => Stmt.planAll o inner body t)) := by
  refine (gives_currentScope hr.inside hr.lt_size).bind
    ((gives_ask (ScopeTree.createChild_of_lt hr.lt_size)).bind ?_)
  let opened : Core := { c with scopes := c.scopes.child ctx.here }
  have hready : (ctx.withScope c.scopes.size).Ready opened.scopes := hr.child
  refine Gives.modify_bind (d := opened) (fun s hs => ?_) ?_
  · change { s.core with scopes := c.scopes.child ctx.here } = opened
    rw [hs]
  refine (hbody (d := opened) hready rfl rfl).bind ((gives_cleanup o ?_).bind ?_)
  · exact ((Stmt.planAll_extends o hready body).ready hready).lt_size
  · rw [Plan.nested, Command.emitAll_append, ScopeTree.emitAll_releases]
    exact Gives.pure _ _

mutual

-- Compiling a statement does what its plan says.
theorem gives_stmt (o : Options) {ctx : Context} {c : Core} (hr : ctx.Ready c.scopes)
    (hm : c.muted = false) (hp : c.pendingSlots = 0) :
    ∀ s : Stmt, Gives (stmt o ctx s) c (Command.emitAll o (s.plan o ctx c.scopes).code)
      (c.after (s.plan o ctx c.scopes))
  | .declare l => gives_declare o hr.toInScope hm hp l
  | .assign x a loc => by
      have hassign := gives_assign (x := x) o hr.within hp a loc
      rw [Core.reported_of_not_muted hm] at hassign
      exact hassign
  | .repeatLoop inline count body _ => by
      have hextends := Plan.nested_extends hr fun hr => Stmt.planAll_extends o hr body
      have hbody := gives_nested o hr body
        fun hr hm' hp' => gives_stmts o hr (hm'.trans hm) (hp'.trans hp) body
      rw [stmt, Stmt.plan]
      refine hbody.bind ?_
      cases inline with
      | true =>
          have hunroll := gives_unroll o count (Command.emitAll o
            (Plan.nested ctx c.scopes fun inner t => Stmt.planAll o inner body t).code)
            (c.after (Plan.nested ctx c.scopes fun inner t => Stmt.planAll o inner body t))
          rw [Core.reported_of_not_muted (by exact hm), ← Command.emitAll_replicate] at hunroll
          simp only [Core.after, List.append_assoc, if_true] at hunroll ⊢
          exact hunroll
      | false =>
          have hcount := gives_value (c := c.after (Plan.nested ctx c.scopes fun inner t =>
            Stmt.planAll o inner body t)) o (hextends.ready hr).within hm hp count
          simp only [Core.after, List.append_assoc, Bool.false_eq_true, if_false] at hcount ⊢
          exact hcount.bind (Gives.pure _ _)
  | .whileLoop condition body _ => by
      have hbody := gives_nested
        (c := { c with diagnostics := c.diagnostics ++ condition.problems ctx c.scopes }) o hr body
        fun hr hm' hp' => gives_stmts o hr (hm'.trans hm) (hp'.trans hp) body
      simp only [Core.after, List.append_assoc] at hbody
      exact (gives_value o hr.within hm hp condition).bind (hbody.bind (Gives.pure _ _))
  | .forever body _ => by
      have hbody := gives_nested o hr body
        fun hr hm' hp' => gives_stmts o hr (hm'.trans hm) (hp'.trans hp) body
      exact hbody.bind (Gives.pure _ _)
  | .branch condition thenBody elseBody _ => by
      let checked : Core := { c with diagnostics := c.diagnostics ++ condition.problems ctx c.scopes }
      let first := Plan.nested ctx c.scopes fun inner t => Stmt.planAll o inner thenBody t
      have hextends : first.Extends ctx c.scopes :=
        Plan.nested_extends hr fun hr => Stmt.planAll_extends o hr thenBody
      have hfirst := gives_nested (c := checked) o hr thenBody
        fun hr hm' hp' => gives_stmts o hr (hm'.trans hm) (hp'.trans hp) thenBody
      have hsecond := gives_nested (c := checked.after first) o (hextends.ready hr) elseBody
        fun hr hm' hp' => gives_stmts o hr (hm'.trans hm) (hp'.trans hp) elseBody
      rw [stmt, Stmt.plan]
      refine (gives_value o hr.within hm hp condition).bind (hfirst.bind ?_)
      simp only [Core.after, checked, List.append_assoc] at hsecond ⊢
      by_cases helse : elseBody.isEmpty
      · simp only [helse, if_true]
        exact Gives.pure _ _
      · simp only [helse, Bool.false_eq_true, if_false]
        exact hsecond.bind (Gives.pure _ _)
  | .switch _ cases _ => gives_switch o hr hm hp cases
  | .ret value _ => by
      have hret := gives_ret o hr.toInScope hp value fun _ => hr.hasMethod
      rw [Core.reported_of_not_muted hm] at hret
      exact hret
  | .scope body _ => by
      have hbody := gives_nested o hr body
        fun hr hm' hp' => gives_stmts o hr (hm'.trans hm) (hp'.trans hp) body
      rw [stmt, Stmt.plan]
      simp only [Command.emitAll, Command.emit, List.append_nil]
      exact hbody

theorem gives_stmts (o : Options) {ctx : Context} {c : Core} (hr : ctx.Ready c.scopes)
    (hm : c.muted = false) (hp : c.pendingSlots = 0) :
    ∀ body : List Stmt, Gives (stmts o ctx body) c
      (Command.emitAll o (Stmt.planAll o ctx body c.scopes).code)
      (c.after (Stmt.planAll o ctx body c.scopes))
  | [] => by
      simp only [Core.after, Stmt.planAll, List.append_nil]
      exact Gives.pure _ c
  | s :: rest => by
      have hextends := Stmt.plan_extends o hr s
      have hrest := gives_stmts (c := c.after (s.plan o ctx c.scopes)) o (hextends.ready hr) hm hp
        rest
      rw [stmts, Stmt.planAll]
      simp only [Command.emitAll_append, Core.after, List.append_assoc] at hrest ⊢
      exact (gives_stmt o hr hm hp s).bind (hrest.bind (Gives.pure _ _))

theorem gives_switch (o : Options) {ctx : Context} {c : Core} (hr : ctx.Ready c.scopes)
    (hm : c.muted = false) (hp : c.pendingSlots = 0) :
    ∀ cases : List Case, Gives (switch o ctx cases) c
      (Command.emitAll o (Stmt.planCases o ctx cases c.scopes).code)
      (c.after (Stmt.planCases o ctx cases c.scopes))
  | [] => by
      simp only [Core.after, Stmt.planCases, List.append_nil]
      exact Gives.pure _ c
  | .mk conditions body isDefault loc :: rest => by
      let problems := conditions.flatMap fun e => e.problems ctx c.scopes
      let checked : Core := { c with diagnostics := c.diagnostics ++ problems }
      let first := Plan.nested ctx c.scopes fun inner t => Stmt.planAll o inner body t
      have hextends : first.Extends ctx c.scopes :=
        Plan.nested_extends hr fun hr => Stmt.planAll_extends o hr body
      have hbody (now : Core) (hnow : ctx.Ready now.scopes) (hm : now.muted = false)
          (hp : now.pendingSlots = 0) :=
        gives_nested o hnow body
          fun hr hm' hp' => gives_stmts o hr (hm'.trans hm) (hp'.trans hp) body
      have hrest := gives_switch (c := checked.after first) o (hextends.ready hr) hm hp rest
      rw [switch, Stmt.planCases]
      by_cases hdefault : (rest.isEmpty && isDefault) = true
      · simp only [hdefault, if_true, Command.emitAll, Command.emit, List.append_nil]
        exact hbody c hr hm hp
      · simp only [hdefault, Bool.false_eq_true, if_false]
        refine (gives_values o hr.within hm hp conditions).bind ((hbody checked hr hm hp).bind ?_)
        have hcondition := Operand.emit_conjunction o loc
          (conditions.map fun e => e.operand ctx c.scopes 0)
        rw [List.map_map] at hcondition
        by_cases hlast : rest.isEmpty
        · simp only [hlast, if_true, Command.emitAll, Command.emit, hcondition, Core.after, checked,
            List.append_assoc]
          exact Gives.pure _ _
        · simp only [hlast, Bool.false_eq_true, if_false, Command.emitAll, Command.emit, hcondition,
            Core.after, checked, problems, List.append_assoc] at hrest ⊢
          exact hrest.bind (Gives.pure _ _)

end

-- Between statements a nested body is always compiled, and so is what comes next.
theorem exists_nested (o : Options) {s : Session} (hr : ctx.Ready s.scopes) (hs : s.Idle)
    (body : List Stmt) :
    ∃ blocks s', nested o ctx (fun inner => stmts o inner body) s = (.ok blocks, s') ∧
      s'.Idle ∧ ctx.Ready s'.scopes := by
  have hextends := Plan.nested_extends hr fun hr => Stmt.planAll_extends o hr body
  obtain ⟨s', hrun, hcore⟩ := gives_nested (c := s.core) o hr body
    (fun hr hm' hp' => gives_stmts o hr (hm'.trans hs.not_muted) (hp'.trans hs.nothing_pending)
      body) s rfl
  have hscopes : s'.scopes = _ := congrArg Core.scopes hcore
  exact ⟨_, s', hrun, Session.idle_of_core hcore hs.nothing_pending hs.not_muted,
    hscopes ▸ hextends.ready hr⟩

end Lower

-- The procedure that a method becomes.
def Method.procedure (o : Options) (ctx : Context) (m : Method) : Procedure where
  name := m.name
  spec := m.spec
  params := m.params.map (·.name)
  defaults := m.params.map (·.type.default)
  atomic := m.atomic
  body := Command.emitAll o (m.plan o ctx).code

-- A method is always compiled, to the blocks of its plan, and what is reported are the problems of
-- the plan. Neither depends on what was reported before.
theorem lowerMethod_run (o : Options) (ctx : Context) (m : Method) (r : Report) :
    ∃ r', lowerMethod o ctx m r = (.ok (m.procedure o ctx), r') ∧
      r'.diagnostics = r.diagnostics ++ (m.plan o ctx).problems := by
  let scopes := (ScopeTree.createRoot { method := some m }).2
  let logged := r.addLog .debug ("lowering method `" ++ m.name ++ "`")
  have hr : (ctx.withScope 0).Ready scopes := ctx.ready_createRoot m
  have hbody : Lower.Gives (Lower.body o ctx 0 m.body) ⟨scopes, r.diagnostics, 0, false⟩
      (Command.emitAll o (m.plan o ctx).code)
      ⟨(m.plan o ctx).scopes, r.diagnostics ++ (m.plan o ctx).problems, 0, false⟩ := by
    rw [Method.plan, Command.emitAll_append, ScopeTree.emitAll_releases]
    refine (Lower.gives_stmts (c := ⟨scopes, r.diagnostics, 0, false⟩) o hr rfl rfl m.body).bind ?_
    refine (Lower.gives_cleanup o ?_).bind (Lower.Gives.pure _ _)
    exact ((Stmt.planAll_extends o hr m.body).ready hr).lt_size
  obtain ⟨s, hs, hcore⟩ := hbody { scopes, report := logged } rfl
  refine ⟨s.report, ?_, congrArg Core.diagnostics hcore⟩
  have hwith : Reporting.withScopes scopes (Lower.body o ctx 0 m.body) logged =
      (.ok (Command.emitAll o (m.plan o ctx).code), s.report) := by
    rw [Reporting.withScopes, hs]
  change (Reporting.withScopes scopes (Lower.body o ctx 0 m.body) >>= fun body => pure _) logged = _
  simp only [Bind.bind, ExceptT.bind, ExceptT.mk, StateT.bind, hwith]
  rfl

theorem lowerMethod_eq (o : Options) (ctx : Context) (m : Method) (r : Report) :
    ∃ p r', lowerMethod o ctx m r = (.ok p, r') ∧ p.name = m.name ∧
      p.body = Command.emitAll o (m.plan o ctx).code ∧
      r'.diagnostics = r.diagnostics ++ (m.plan o ctx).problems := by
  obtain ⟨r', hrun, hproblems⟩ := lowerMethod_run o ctx m r
  exact ⟨m.procedure o ctx, r', hrun, rfl, rfl, hproblems⟩

end SpriteCompiler
