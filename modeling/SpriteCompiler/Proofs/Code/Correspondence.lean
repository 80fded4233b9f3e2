import SpriteCompiler.Proofs.Program.Everywhere
import SpriteCompiler.Proofs.Scope.Correspondence

namespace SpriteCompiler

namespace Context

theorem names_split {ctx : Context} (h : ctx.scope = some ctx.here) (t : ScopeTree) :
    ctx.names t = Local.namesIn (t.frames ctx.here) ++ ctx.outerNames t.method := by
  simp only [names, h, Option.elim_some, ScopeTree.latestFirst, Local.namesIn, ScopeTree.frames,
    List.map_flatMap, List.flatMap_map]

-- Two places in which names stand for the same, up to `ρ`, outside the locals `F` and `F'`.
structure Paired (ρ : String → String) (ctx ctx' : Context) (t t' : ScopeTree)
    (F F' : List (List Local)) : Prop where
  ready : ctx.Ready t
  ready' : ctx'.Ready t'
  frames_eq : t.frames ctx.here = F
  frames_eq' : t'.frames ctx'.here = F'
  outer_eq : ∀ x, ctx'.outer? t'.method (ρ x) = ctx.outer? t.method x
  names_eq : ctx'.outerNames t'.method = (ctx.outerNames t.method).map ρ
  -- what a return statement asks of the method
  result_eq : t'.method.map (fun m => (m.name, m.returnType)) =
    t.method.map fun m => (m.name, m.returnType)

namespace Paired

variable {ρ : String → String} {ctx ctx' : Context} {t t' : ScopeTree} {F F' : List (List Local)}

-- The places after something was planned at both.
theorem extend (h : Paired ρ ctx ctx' t t' F F') {p p' : Plan} (hp : p.Extends ctx t)
    (hp' : p'.Extends ctx' t') {G G' : List (List Local)} (hG : p.scopes.frames ctx.here = G)
    (hG' : p'.scopes.frames ctx'.here = G') : Paired ρ ctx ctx' p.scopes p'.scopes G G' where
  ready := hp.ready h.ready
  ready' := hp'.ready h.ready'
  frames_eq := hG
  frames_eq' := hG'
  outer_eq := by rw [hp.grows.method_eq, hp'.grows.method_eq]; exact h.outer_eq
  names_eq := by rw [hp.grows.method_eq, hp'.grows.method_eq]; exact h.names_eq
  result_eq := by rw [hp.grows.method_eq, hp'.grows.method_eq]; exact h.result_eq

theorem after (h : Paired ρ ctx ctx' t t' F F') (o : Options) (s s' : Stmt) :
    Paired ρ ctx ctx' (s.plan o ctx t).scopes (s'.plan o ctx' t').scopes (s.declares F)
      (s'.declares F') := by
  have hs := s.plan_frames o h.ready
  have hs' := s'.plan_frames o h.ready'
  rw [h.frames_eq] at hs
  rw [h.frames_eq'] at hs'
  exact h.extend (s.plan_extends o h.ready) (s'.plan_extends o h.ready') hs hs'

-- Into a scope at the second place, and at both.

theorem enter' (h : Paired ρ ctx ctx' t t' F F') :
    Paired ρ ctx (ctx'.withScope t'.size) t (t'.child ctx'.here) F ([] :: F') := by
  refine ⟨h.ready, h.ready'.child, h.frames_eq, ?_, ?_, ?_, ?_⟩
  · rw [← h.frames_eq']
    exact ScopeTree.frames_child h.ready'.lt_size
  all_goals rw [ScopeTree.child_method]
  · exact h.outer_eq
  · exact h.names_eq
  · exact h.result_eq

theorem enter (h : Paired ρ ctx ctx' t t' F F') :
    Paired ρ (ctx.withScope t.size) (ctx'.withScope t'.size) (t.child ctx.here)
      (t'.child ctx'.here) ([] :: F) ([] :: F') := by
  have h' := h.enter'
  refine ⟨h.ready.child, h'.ready', ?_, h'.frames_eq', ?_, ?_, ?_⟩
  · rw [← h.frames_eq]
    exact ScopeTree.frames_child h.ready.lt_size
  all_goals rw [ScopeTree.child_method t]
  · exact h'.outer_eq
  · exact h'.names_eq
  · exact h'.result_eq

theorem leave (h : Paired ρ ctx ctx' t t' F F') (o : Options) (body body' : List Stmt) :
    Paired ρ ctx ctx' (Plan.nested ctx t fun inner t => Stmt.planAll o inner body t).scopes
      (Plan.nested ctx' t' fun inner t => Stmt.planAll o inner body' t).scopes F F' := by
  have hframes := Plan.nested_frames h.ready fun hr => Stmt.planAll_extends o hr body
  have hframes' := Plan.nested_frames h.ready' fun hr => Stmt.planAll_extends o hr body'
  rw [h.frames_eq] at hframes
  rw [h.frames_eq'] at hframes'
  exact h.extend (Plan.nested_extends h.ready fun hr => Stmt.planAll_extends o hr body)
    (Plan.nested_extends h.ready' fun hr => Stmt.planAll_extends o hr body') hframes hframes'

theorem exists_method (h : Paired ρ ctx ctx' t t' F F') :
    ∃ m m', t.method = some m ∧ t'.method = some m' ∧ m'.name = m.name ∧
      m'.returnType = m.returnType := by
  have hresult := h.result_eq
  obtain ⟨m, hm⟩ := Option.isSome_iff_exists.mp h.ready.hasMethod
  obtain ⟨m', hm'⟩ := Option.isSome_iff_exists.mp h.ready'.hasMethod
  rw [hm, hm', Option.map_some, Option.map_some, Option.some.injEq, Prod.mk.injEq] at hresult
  exact ⟨m, m', hm, hm', hresult⟩

variable (h : Paired ρ ctx ctx' t t' F F') (hF : Local.Corresponds ρ F F')

include h hF

theorem resolve?_eq (x : String) :
    ctx'.resolve? t' (ρ x) = (ctx.resolve? t x).map (Binding.rename ρ) := by
  rw [Context.resolve?_eq h.ready'.inside, Context.resolve?_eq h.ready.inside,
    ScopeTree.search?_eq, ScopeTree.search?_eq, h.frames_eq, h.frames_eq', hF.search_eq, h.outer_eq]
  cases Local.searchIn? x F with
  | some l => simp
  | none =>
      cases hb : ctx.outer? t.method x with
      | none => rfl
      | some b => simp [Binding.rename_eq_self (outer?_spec hb).2]

theorem notDefined_renamed (x : String) (loc : Location) :
    (ctx.notDefined t x loc).Renamed ρ (ctx'.notDefined t' (ρ x) loc) := by
  have hnames : ctx'.names t' = (ctx.names t).map ρ := by
    rw [names_split h.ready'.inside, names_split h.ready.inside, h.frames_eq,
      h.frames_eq', hF.names_eq, h.names_eq, List.map_append]
  rw [notDefined, notDefined, hnames]
  exact .notDefined x loc _

theorem depth_eq (x : String) (pending : Nat) :
    Site.depth ⟨t', ctx'.here, ρ x, pending⟩ = Site.depth ⟨t, ctx.here, x, pending⟩ := by
  simp only [Site.depth, ScopeTree.depth?_eq, h.frames_eq, h.frames_eq', hF.depth_eq]

theorem emit_operand (o : Options) (pending : Nat) (x : String) :
    (ctx'.operand t' pending (ρ x)).emit o = (ctx.operand t pending x).emit o := by
  have hdepth := h.depth_eq hF x pending
  rw [operand, operand, h.resolve?_eq hF]
  cases hb : ctx.resolve? t x with
  | none => rfl
  | some b =>
      cases b with
      | localVariable v =>
          by_cases hv : v.slots = 1
          · simp only [Option.map_some, Binding.rename, LocalVariable.rename, hv, if_true,
              Operand.emit, hdepth]
          · simp only [Option.map_some, Binding.rename, LocalVariable.rename, hv, if_false]
      | _ => rfl

theorem problems_renamed (x : String) (loc : Location) :
    Diagnostic.AllRenamed ρ (ctx.problems t x loc) (ctx'.problems t' (ρ x) loc) := by
  rw [problems, problems, h.resolve?_eq hF]
  cases hb : ctx.resolve? t x with
  | none => exact .one (h.notDefined_renamed hF x loc)
  | some b =>
      cases b with
      | localVariable v =>
          by_cases hv : v.slots = 1
          · simp only [Option.map_some, Binding.rename, LocalVariable.rename, hv, if_true]
            exact .same []
          · simp only [Option.map_some, Binding.rename, LocalVariable.rename, hv, if_false]
            exact .one (.notAValue x loc)
      | localArray a => exact .one (.notAValue x loc)
      | method m => exact .one (.notAValue x loc)
      | _ => exact .same []

end Paired

end Context

section Parts

variable {ρ : String → String} {ctx ctx' : Context} {t t' : ScopeTree} {F F' : List (List Local)}
  (h : Context.Paired ρ ctx ctx' t t' F F') (hF : Local.Corresponds ρ F F')

include h hF

theorem Expr.typeAt_rename (e : Expr) : (e.rename ρ).typeAt ctx' t' = e.typeAt ctx t := by
  cases e with
  | lookup x loc =>
      rw [rename, typeAt, typeAt, h.resolve?_eq hF]
      cases ctx.resolve? t x with
      | none => rfl
      | some b => cases b <;> rfl
  | item x index loc =>
      rw [rename, typeAt, typeAt, h.resolve?_eq hF]
      cases ctx.resolve? t x with
      | none => rfl
      | some b => exact b.type_rename
  | _ => rfl

-- Written as blocks, an expression does not show the names of locals.
theorem Expr.emit_rename (o : Options) (pending : Nat) (e : Expr) :
    ((e.rename ρ).operand ctx' t' pending).emit o = (e.operand ctx t pending).emit o := by
  induction e with
  | literal value loc => rfl
  | lookup x loc => exact h.emit_operand hF o pending x
  | item x index loc ih =>
      have hdepth := h.depth_eq hF x pending
      rw [rename, operand, operand, h.resolve?_eq hF]
      cases hb : ctx.resolve? t x with
      | none => rfl
      | some b =>
          cases b with
          | globalList l => simp only [Option.map_some, Binding.rename, Operand.emit, ih]
          | localArray a =>
              simp only [Option.map_some, Binding.rename, LocalArray.rename, Operand.emit, ih, hdepth,
                List.length_map]
          | _ => rfl
  | unary op operand loc ih => simp only [rename, Expr.operand, Operand.emit, ih]
  | binary op left right loc ihl ihr => simp only [rename, operand, Operand.emit, ihl, ihr]

theorem Expr.problems_rename (e : Expr) :
    Diagnostic.AllRenamed ρ (e.problems ctx t) ((e.rename ρ).problems ctx' t') := by
  induction e with
  | literal value loc => exact .same []
  | lookup x loc => exact h.problems_renamed hF x loc
  | item x index loc ih =>
      rw [rename, problems, problems, h.resolve?_eq hF]
      cases hb : ctx.resolve? t x with
      | none => exact .one (h.notDefined_renamed hF x loc)
      | some b =>
          cases b with
          | globalList l => exact ih
          | localArray a => exact ih
          | _ => exact .one (.notAnArray x loc)
  | unary op operand loc ih => exact ih
  | binary op left right loc ihl ihr => exact ihl.append ihr

theorem Expr.mismatches_rename (expected : ValueType) (e : Expr) :
    (e.rename ρ).mismatches ctx' t' expected = e.mismatches ctx t expected := by
  rw [mismatches, mismatches, e.typeAt_rename h hF, e.location_rename]

theorem Local.emit_initial (o : Options) (slot : Nat) :
    ∀ l : Local, ((l.rename ρ).initial ctx' t' slot).emit o = (l.initial ctx t slot).emit o
  | .variable v => by
      simp only [rename, LocalVariable.rename, initial]
      cases v.value with
      | none => rfl
      | some e => exact e.emit_rename h hF o slot
  | .array a => by
      simp only [rename, LocalArray.rename, initial, List.getElem?_map]
      cases a.items[slot]? with
      | none => rfl
      | some e => exact e.emit_rename h hF o slot

theorem Local.emitAll_pushes (o : Options) (l : Local) :
    Command.emitAll o ((l.rename ρ).pushes ctx' t') = Command.emitAll o (l.pushes ctx t) := by
  rw [pushes, pushes, slots_rename]
  induction List.range l.slots with
  | nil => rfl
  | cons k ks ih =>
      simp only [List.map_cons, Command.emitAll, Command.emit, l.emit_initial h hF o k, ih]

theorem Local.problems_rename :
    ∀ l : Local, Diagnostic.AllRenamed ρ (l.problems ctx t) ((l.rename ρ).problems ctx' t')
  | .variable v => by
      simp only [rename, LocalVariable.rename, problems]
      cases v.value with
      | none => exact .same []
      | some e =>
          simp only [Option.map_some, e.mismatches_rename h hF]
          apply (Diagnostic.AllRenamed.same _).append
          split
          · exact .same []
          · exact e.problems_rename h hF
  | .array a => by
      refine Diagnostic.AllRenamed.flatMap (fun e => ?_) a.items
      rw [e.mismatches_rename h hF]
      exact (Diagnostic.AllRenamed.same _).append (e.problems_rename h hF)

theorem Assignment.emit_amount (o : Options) (a : Assignment) (loc : Location) :
    ((a.rename ρ).amount ctx' t' loc).emit o = (a.amount ctx t loc).emit o := by
  cases a with
  | add e => exact e.emit_rename h hF o 0
  | subtract e => simp only [rename, amount, Operand.emit, e.emit_rename h hF o 0]
  | _ => rfl

theorem Assignment.emit_result (o : Options) (a : Assignment) (loc : Location)
    {current current' : Operand} (hcurrent : current'.emit o = current.emit o) :
    ((a.rename ρ).result ctx' t' loc current').emit o = (a.result ctx t loc current).emit o := by
  have hamount := a.emit_amount h hF o loc
  cases a with
  | set e => exact e.emit_rename h hF o 0
  | join e => simp only [rename, result, Operand.emit, hcurrent, e.emit_rename h hF o 0]
  | _ =>
      simp only [rename] at hamount
      simp only [rename, result, Operand.emit, hcurrent, hamount]

theorem Assignment.emitAll_code (o : Options) (x : String) (a : Assignment) (loc : Location) :
    Command.emitAll o ((a.rename ρ).code ctx' t' loc (ρ x)) =
      Command.emitAll o (a.code ctx t loc x) := by
  have hdepth := h.depth_eq hF x 0
  have hamount := a.emit_amount h hF o loc
  rw [code, code, h.resolve?_eq hF]
  cases hb : ctx.resolve? t x with
  | none => rfl
  | some b =>
      cases b with
      | localVariable v =>
          by_cases hv : v.slots = 1
          · have hcell : (Operand.cell ⟨t', ctx'.here, ρ x, 0⟩).emit o =
                (Operand.cell ⟨t, ctx.here, x, 0⟩).emit o := by
              simp only [Operand.emit, hdepth]
            simp only [Option.map_some, Binding.rename, LocalVariable.rename, hv, if_true,
              Command.emitAll, Command.emit, hdepth, a.emit_result h hF o loc hcell]
          · simp only [Option.map_some, Binding.rename, LocalVariable.rename, hv, if_false]
      | globalVariable v =>
          have hglobal : (Operand.global v.name).emit o = (Operand.global v.name).emit o := rfl
          have hresult := a.emit_result h hF o loc hglobal
          cases a <;>
            simp only [Option.map_some, Binding.rename, rename, Command.emitAll, Command.emit]
              at hamount hresult ⊢ <;>
            first | rw [hresult] | rw [hamount]
      | _ => rfl

theorem Assignment.allProblems_rename (x : String) (a : Assignment) (loc : Location) :
    Diagnostic.AllRenamed ρ (a.allProblems ctx t loc x)
      ((a.rename ρ).allProblems ctx' t' loc (ρ x)) := by
  have hproblems : Diagnostic.AllRenamed ρ (a.problems ctx t) ((a.rename ρ).problems ctx' t') := by
    rw [problems, problems, operand?_rename]
    cases a.operand? with
    | none => exact .same []
    | some e => exact e.problems_rename h hF
  rw [allProblems, allProblems, h.resolve?_eq hF]
  cases hb : ctx.resolve? t x with
  | none => exact .one (h.notDefined_renamed hF x loc)
  | some b =>
      cases b with
      | localVariable v =>
          by_cases hv : v.slots = 1
          · simp only [Option.map_some, Binding.rename, LocalVariable.rename, hv, if_true, op_rename]
            exact (Diagnostic.AllRenamed.same _).append hproblems
          · simp only [Option.map_some, Binding.rename, LocalVariable.rename, hv, if_false]
            exact .one (.notAVariable x loc)
      | globalVariable v =>
          simp only [Option.map_some, Binding.rename, op_rename]
          exact (Diagnostic.AllRenamed.same _).append hproblems
      | constant d => exact .one (.readonly x loc)
      | parameter d => exact .one (.readonly x loc)
      | _ => exact .one (.notAVariable x loc)

theorem emitAll_storeResult (o : Options) (value : Option Expr) :
    Command.emitAll o (storeResult o ctx' t' (value.map (Expr.rename ρ))) =
      Command.emitAll o (storeResult o ctx t value) := by
  obtain ⟨m, m', hm, hm', hname, htype⟩ := h.exists_method
  cases value with
  | none => rfl
  | some e =>
      simp only [storeResult, Option.map_some, hm, hm', hname, htype]
      cases m.returnType with
      | none => rfl
      | some expected => simp only [Command.emitAll, Command.emit, e.emit_rename h hF o 0]

theorem resultProblems_rename (value : Option Expr) :
    Diagnostic.AllRenamed ρ (resultProblems ctx t value)
      (resultProblems ctx' t' (value.map (Expr.rename ρ))) := by
  obtain ⟨m, m', hm, hm', hname, htype⟩ := h.exists_method
  cases value with
  | none => exact .same []
  | some e =>
      simp only [resultProblems, Option.map_some, hm, hm', hname, htype]
      cases m.returnType with
      | none =>
          rw [e.location_rename]
          exact .same _
      | some expected =>
          simp only [e.mismatches_rename h hF]
          exact (Diagnostic.AllRenamed.same _).append (e.problems_rename h hF)

end Parts

-- Plans that are written as the same blocks and whose problems correspond.
structure Plan.Same (o : Options) (ρ : String → String) (p p' : Plan) : Prop where
  blocks_eq : Command.emitAll o p'.code = Command.emitAll o p.code
  problems : Diagnostic.AllRenamed ρ p.problems p'.problems

-- What is released at the end of a scope, and on the way out of all scopes, is known from slots.

theorem ScopeTree.releases_eq (t : ScopeTree) (i : Nat) :
    t.releases i = (((t.locals i).reverse.map Local.slots).filter (0 < ·)).map .release := by
  rw [releases, List.filter_map, List.map_map]
  rfl

theorem ScopeTree.unwind_releases (t : ScopeTree) (i : Nat) :
    (t.lineage i).flatMap t.releases =
      ((Local.slotsIn (t.frames i)).filter (0 < ·)).map .release := by
  rw [frames, Local.slotsIn, List.flatMap_map]
  induction t.lineage i with
  | nil => rfl
  | cons j ids ih =>
      rw [List.flatMap_cons, List.flatMap_cons, List.filter_append, List.map_append, ih, releases_eq]

section Statements

variable {o : Options} {ρ : String → String} {ctx ctx' : Context} {t t' : ScopeTree}
  {f f' : List Local} {F F' : List (List Local)}

theorem Context.Paired.locals_eq (h : Context.Paired ρ ctx ctx' t t' (f :: F) (f' :: F')) :
    t.locals ctx.here = f ∧ t'.locals ctx'.here = f' := by
  have hframes := h.frames_eq
  have hframes' := h.frames_eq'
  rw [ScopeTree.frames_eq h.ready.lt_size] at hframes
  rw [ScopeTree.frames_eq h.ready'.lt_size] at hframes'
  exact ⟨(List.cons.inj hframes).1, (List.cons.inj hframes').1⟩

-- The locals of the innermost scope are released alike.
theorem Context.Paired.releases_eq
    (h : Context.Paired ρ ctx ctx' t t' (f :: F) (f.map (Local.rename ρ) :: F')) :
    t'.releases ctx'.here = t.releases ctx.here := by
  obtain ⟨hlocals, hlocals'⟩ := h.locals_eq
  have hslots : (f.map (Local.rename ρ)).reverse.map Local.slots = f.reverse.map Local.slots := by
    simp only [← List.map_reverse, List.map_map, Function.comp_def, Local.slots_rename]
  rw [ScopeTree.releases_eq, ScopeTree.releases_eq, hlocals, hlocals', hslots]

-- A declaration is refused at both places or at none.
theorem Local.plan_same (h : Context.Paired ρ ctx ctx' t t' (f :: F) (f' :: F'))
    (hF : Local.Corresponds ρ (f :: F) (f' :: F')) (l : Local)
    (hfind : f'.find? (·.name == ρ l.name) = (f.find? (·.name == l.name)).map (rename ρ)) :
    (l.plan ctx t).Same o ρ ((l.rename ρ).plan ctx' t') := by
  have hproblems := l.problems_rename h hF
  obtain ⟨hlocals, hlocals'⟩ := h.locals_eq
  have hcases := l.plan_cases h.ready.toInScope
  have hcases' := (l.rename ρ).plan_cases h.ready'.toInScope
  rw [hlocals] at hcases
  rw [hlocals', name_rename, hfind] at hcases'
  rcases hcases with ⟨hnone, hcode, hds⟩ | ⟨earlier, hsome, hcode, hds⟩
  · rw [hnone] at hcases'
    rcases hcases' with ⟨-, hcode', hds'⟩ | ⟨_, hsome', -⟩
    · exact ⟨by rw [hcode, hcode', l.emitAll_pushes h hF], by rw [hds, hds']; exact hproblems⟩
    · cases hsome'
  · rw [hsome] at hcases'
    rcases hcases' with ⟨hnone', -⟩ | ⟨earlier', hsome', hcode', hds'⟩
    · cases hnone'
    · obtain rfl := Option.some.inj hsome'
      refine ⟨by rw [hcode, hcode'], ?_⟩
      rw [hds, hds', location_rename, location_rename]
      exact hproblems.append (.one (.duplicateDeclaration _ _ _))

-- The locals after a statement, at two places with the same locals in the innermost scope.
theorem Stmt.declares_rename (hρ : Function.Injective ρ) (s : Stmt) (f : List Local)
    (F F' : List (List Local)) :
    ∃ g, s.declares (f :: F) = g :: F ∧
      (s.rename ρ).declares (f.map (Local.rename ρ) :: F') = g.map (Local.rename ρ) :: F' := by
  cases s with
  | declare l =>
      have htaken : (f.map (Local.rename ρ)).any (·.name == (l.rename ρ).name) =
          f.any (·.name == l.name) := by
        rw [List.any_map, l.name_rename]
        congr 1
        funext l'
        rw [Function.comp_apply, Local.name_rename, beq_rename hρ]
      simp only [Stmt.rename, Stmt.declares, Local.declareIn, htaken]
      split
      · exact ⟨f, rfl, rfl⟩
      · exact ⟨f ++ [l], rfl, by rw [List.map_append]; rfl⟩
  | _ => exact ⟨f, rfl, rfl⟩

-- A body in a scope of its own, with the locals that it leaves there.
theorem Plan.nested_same {body body' : List Stmt}
    (hbody : (Stmt.planAll o (ctx.withScope t.size) body (t.child ctx.here)).Same o ρ
        (Stmt.planAll o (ctx'.withScope t'.size) body' (t'.child ctx'.here)) ∧
      ∃ g, Context.Paired ρ (ctx.withScope t.size) (ctx'.withScope t'.size)
        (Stmt.planAll o (ctx.withScope t.size) body (t.child ctx.here)).scopes
        (Stmt.planAll o (ctx'.withScope t'.size) body' (t'.child ctx'.here)).scopes
        (g :: F) (g.map (Local.rename ρ) :: F')) :
    (Plan.nested ctx t fun inner t => Stmt.planAll o inner body t).Same o ρ
      (Plan.nested ctx' t' fun inner t => Stmt.planAll o inner body' t) := by
  obtain ⟨hsame, g, hend⟩ := hbody
  have hreleases := hend.releases_eq
  refine ⟨?_, hsame.problems⟩
  simp only [Context.withScope, Context.here, Option.getD_some] at hreleases hsame
  simp only [Plan.nested, Command.emitAll_append, Context.withScope, Context.here, hsame.blocks_eq,
    hreleases]

theorem Operand.emit_conjunction_congr {ps qs : List Operand}
    (hpq : ps.map (Operand.emit o) = qs.map (Operand.emit o)) (loc : Location) :
    (Operand.conjunction loc ps).emit o = (Operand.conjunction loc qs).emit o := by
  rw [Operand.emit_conjunction, Operand.emit_conjunction, hpq]

mutual

-- A statement that declares nothing, planned at two places that correspond.
theorem Stmt.plan_same (o : Options) (hρ : Function.Injective ρ) {ctx ctx' : Context}
    {t t' : ScopeTree} {F F' : List (List Local)} (h : Context.Paired ρ ctx ctx' t t' F F')
    (hF : Local.Corresponds ρ F F') :
    ∀ s : Stmt, (∀ l, s ≠ .declare l) → (s.plan o ctx t).Same o ρ ((s.rename ρ).plan o ctx' t')
  | .declare l, hs => absurd rfl (hs l)
  | .assign x a loc, _ => ⟨a.emitAll_code h hF o x loc, a.allProblems_rename h hF x loc⟩
  | .repeatLoop inline count body _, _ => by
      have hbody := Plan.nested_same (Stmt.planAll_same o hρ h.enter hF body)
      have hleave := h.leave o body (Stmt.renameAll ρ body)
      cases inline with
      | true =>
          refine ⟨?_, hbody.problems.append ?_⟩
          · simp only [Stmt.plan, Stmt.rename, if_true, Command.emitAll_replicate, hbody.blocks_eq,
              Expr.copies, count.literal?_rename]
          · simp only [Expr.countProblems, count.literal?_rename, count.location_rename]
            exact .same _
      | false =>
          refine ⟨?_, hbody.problems.append (count.problems_rename hleave hF)⟩
          simp only [Stmt.plan, Stmt.rename, Bool.false_eq_true, if_false, Command.emitAll,
            Command.emit, hbody.blocks_eq, count.emit_rename hleave hF o 0]
  | .whileLoop condition body _, _ => by
      have hbody := Plan.nested_same (Stmt.planAll_same o hρ h.enter hF body)
      refine ⟨?_, (condition.problems_rename h hF).append hbody.problems⟩
      simp only [Stmt.plan, Stmt.rename, Command.emitAll, Command.emit, Operand.emit,
        hbody.blocks_eq, condition.emit_rename h hF o 0, condition.location_rename]
  | .forever body _, _ => by
      have hbody := Plan.nested_same (Stmt.planAll_same o hρ h.enter hF body)
      refine ⟨?_, hbody.problems⟩
      simp only [Stmt.plan, Stmt.rename, Command.emitAll, Command.emit, hbody.blocks_eq]
  | .branch condition thenBody elseBody _, _ => by
      have hthen := Plan.nested_same (Stmt.planAll_same o hρ h.enter hF thenBody)
      have hleave := h.leave o thenBody (Stmt.renameAll ρ thenBody)
      have helse := Plan.nested_same (Stmt.planAll_same o hρ hleave.enter hF elseBody)
      have hcondition := condition.emit_rename h hF o 0
      have hproblems := condition.problems_rename h hF
      by_cases hempty : elseBody.isEmpty
      · simp only [Stmt.plan, Stmt.rename, Stmt.isEmpty_renameAll, hempty, if_true]
        refine ⟨?_, hproblems.append hthen.problems⟩
        simp only [Command.emitAll, Command.emit, hthen.blocks_eq, hcondition]
      · simp only [Stmt.plan, Stmt.rename, Stmt.isEmpty_renameAll, hempty, Bool.false_eq_true,
          if_false]
        refine ⟨?_, hproblems.append (hthen.problems.append helse.problems)⟩
        simp only [Command.emitAll, Command.emit, hthen.blocks_eq, helse.blocks_eq, hcondition]
  | .switch _ cases _, _ => Stmt.planCases_same o hρ h hF cases
  | .ret value _, _ => by
      refine ⟨?_, resultProblems_rename h hF value⟩
      simp only [Stmt.plan, Stmt.rename, Command.emitAll_append, emitAll_storeResult h hF,
        ScopeTree.unwind_releases, h.frames_eq, h.frames_eq', hF.slots_eq]
  | .scope body _, _ => by
      have hbody := Plan.nested_same (Stmt.planAll_same o hρ h.enter hF body)
      refine ⟨?_, hbody.problems⟩
      simp only [Stmt.plan, Stmt.rename, Command.emitAll, Command.emit, hbody.blocks_eq]

-- A body in a scope of its own, in which the locals are the same up to their names.
theorem Stmt.planAll_same (o : Options) (hρ : Function.Injective ρ) {ctx ctx' : Context}
    {t t' : ScopeTree} {f : List Local} {F F' : List (List Local)}
    (h : Context.Paired ρ ctx ctx' t t' (f :: F) (f.map (Local.rename ρ) :: F'))
    (hF : Local.Corresponds ρ F F') :
    ∀ body : List Stmt,
      (Stmt.planAll o ctx body t).Same o ρ (Stmt.planAll o ctx' (Stmt.renameAll ρ body) t') ∧
      ∃ g, Context.Paired ρ ctx ctx' (Stmt.planAll o ctx body t).scopes
        (Stmt.planAll o ctx' (Stmt.renameAll ρ body) t').scopes (g :: F)
        (g.map (Local.rename ρ) :: F')
  | [] => ⟨⟨rfl, .same []⟩, f, h⟩
  | s :: rest => by
      have hfirst : (s.plan o ctx t).Same o ρ ((s.rename ρ).plan o ctx' t') := by
        by_cases hs : ∃ l, s = .declare l
        · obtain ⟨l, rfl⟩ := hs
          exact l.plan_same h (hF.cons hρ f) (Local.find?_rename hρ f l.name)
        · exact Stmt.plan_same o hρ h (hF.cons hρ f) s fun l hl => hs ⟨l, hl⟩
      obtain ⟨g, hg, hg'⟩ := s.declares_rename hρ f F F'
      have hafter := h.after o s (s.rename ρ)
      rw [hg, hg'] at hafter
      obtain ⟨hrest, hend⟩ := Stmt.planAll_same o hρ hafter hF rest
      refine ⟨⟨?_, hfirst.problems.append hrest.problems⟩, hend⟩
      simp only [Stmt.planAll, Stmt.renameAll, Command.emitAll_append, hfirst.blocks_eq,
        hrest.blocks_eq]

theorem Stmt.planCases_same (o : Options) (hρ : Function.Injective ρ) {ctx ctx' : Context}
    {t t' : ScopeTree} {F F' : List (List Local)} (h : Context.Paired ρ ctx ctx' t t' F F')
    (hF : Local.Corresponds ρ F F') :
    ∀ cases : List Case, (Stmt.planCases o ctx cases t).Same o ρ
      (Stmt.planCases o ctx' (Stmt.renameCases ρ cases) t')
  | [] => ⟨rfl, .same []⟩
  | .mk conditions body isDefault loc :: rest => by
      have hbody := Plan.nested_same (Stmt.planAll_same o hρ h.enter hF body)
      have hrest := Stmt.planCases_same o hρ (h.leave o body (Stmt.renameAll ρ body)) hF rest
      have hemit : ((conditions.map (Expr.rename ρ)).map fun e => e.operand ctx' t' 0).map
          (Operand.emit o) = (conditions.map fun e => e.operand ctx t 0).map (Operand.emit o) := by
        simp only [List.map_map, Function.comp_def, Expr.emit_rename h hF o 0]
      have hcondition := Operand.emit_conjunction_congr hemit loc
      have hproblems := Diagnostic.AllRenamed.flatMap (fun e => Expr.problems_rename h hF e)
        conditions
      rw [Stmt.planCases, Stmt.renameCases, Stmt.planCases, Stmt.isEmpty_renameCases]
      split
      · refine ⟨?_, hbody.problems⟩
        simp only [Command.emitAll, Command.emit, hbody.blocks_eq]
      · split
        · refine ⟨?_, hproblems.append hbody.problems⟩
          simp only [Command.emitAll, Command.emit, hbody.blocks_eq, hcondition]
        · refine ⟨?_, hproblems.append (hbody.problems.append hrest.problems)⟩
          simp only [Command.emitAll, Command.emit, hbody.blocks_eq, hrest.blocks_eq, hcondition]

end

end Statements

section Fixed

variable {ρ : String → String} (hρ : Function.Injective ρ)

include hρ

-- A name is not mistaken for one that has to stay.
theorem find?_fixed {α : Type} (name : α → String) (xs : List α)
    (hfix : ∀ a ∈ xs, ρ (name a) = name a) (x : String) :
    xs.find? (name · == ρ x) = xs.find? (name · == x) := by
  induction xs with
  | nil => rfl
  | cons a xs ih =>
      have hname : (name a == ρ x) = (name a == x) := by
        rw [← beq_rename hρ (name a) x, hfix a (by simp)]
      rw [List.find?_cons, List.find?_cons, hname, ih fun b hb => hfix b (by simp [hb])]

theorem Context.outer?_fixed (ctx : Context) {m m' : Method} (hm : m'.params = m.params)
    (hfix : ∀ y ∈ ctx.outerNames (some m), ρ y = y) (x : String) :
    ctx.outer? (some m') (ρ x) = ctx.outer? (some m) x := by
  simp only [outerNames, Option.elim_some, List.mem_append, List.mem_map] at hfix
  have hparams : m'.param? (ρ x) = m.param? x := by
    rw [Method.param?, Method.param?, hm]
    exact find?_fixed hρ Parameter.name m.params (fun p hp => hfix _ (.inl (.inl ⟨p, hp, rfl⟩))) x
  have hsprite : (ctx.sprite.bind fun s => s.find? (ρ x)) = ctx.sprite.bind fun s => s.find? x := by
    cases hs : ctx.sprite with
    | none => rfl
    | some s =>
        simp only [hs, Option.elim_some, Sprite.names, List.mem_append, List.mem_map] at hfix
        have hdeclarations := find?_fixed hρ Global.name s.declarations
          (fun g hg => hfix _ (.inl (.inr (.inl ⟨g, hg, rfl⟩)))) x
        have hmethods := find?_fixed hρ Method.name s.methods
          (fun m hm => hfix _ (.inl (.inr (.inr ⟨m, hm, rfl⟩)))) x
        simp only [Option.bind_some, Sprite.find?, hdeclarations, hmethods]
  have hproject : ctx.project.find? (ρ x) = ctx.project.find? x := by
    simp only [Project.names, List.mem_map] at hfix
    rw [Project.find?, Project.find?, find?_fixed hρ Global.name ctx.project.declarations
      (fun g hg => hfix _ (.inr ⟨g, hg, rfl⟩)) x]
  simp only [outer?, Option.bind_some, hparams, hsprite, hproject]

-- The places at which a method and a method of the same parameters start to be compiled.
theorem Context.paired_createRoot (ctx : Context) (m m' : Method) (hname : m'.name = m.name)
    (hparams : m'.params = m.params) (htype : m'.returnType = m.returnType)
    (hfix : ∀ y ∈ ctx.outerNames (some m), ρ y = y) :
    Context.Paired ρ (ctx.withScope 0) (ctx.withScope 0)
      (ScopeTree.createRoot { method := some m }).2 (ScopeTree.createRoot { method := some m' }).2
      [[]] [[]] where
  ready := ctx.ready_createRoot m
  ready' := ctx.ready_createRoot m'
  frames_eq := rfl
  frames_eq' := rfl
  outer_eq := Context.outer?_fixed hρ (ctx.withScope 0) hparams hfix
  names_eq := by
    have hnames : ctx.outerNames (some m') = ctx.outerNames (some m) := by
      simp only [outerNames, Option.elim_some, hparams]
    exact hnames.trans ((List.map_congr_left hfix).trans (List.map_id _)).symm
  result_eq := by
    change some (m'.name, m'.returnType) = some (m.name, m.returnType)
    rw [hname, htype]

end Fixed

end SpriteCompiler
