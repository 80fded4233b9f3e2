import SpriteCompiler.Proofs.Code.Correspondence
import SpriteCompiler.Proofs.Lowering.Realize

namespace SpriteCompiler

theorem Stmt.planAll_append (o : Options) (ctx : Context) (body rest : List Stmt) (t : ScopeTree) :
    Stmt.planAll o ctx (body ++ rest) t =
      let p := Stmt.planAll o ctx body t
      let q := Stmt.planAll o ctx rest p.scopes
      ⟨p.code ++ q.code, q.scopes, p.problems ++ q.problems⟩ := by
  induction body generalizing t with
  | nil => rfl
  | cons s body ih => simp only [List.cons_append, Stmt.planAll, ih, List.append_assoc]

-- The locals of a scope are those that were there and those that its statements declare.
theorem Stmt.planAll_locals (o : Options) {ctx : Context} {t : ScopeTree} (hr : ctx.Ready t)
    (body : List Stmt) {l : Local}
    (hl : l ∈ (Stmt.planAll o ctx body t).scopes.locals ctx.here) :
    l ∈ t.locals ctx.here ∨ .declare l ∈ body := by
  induction body generalizing t with
  | nil => exact .inl hl
  | cons s body ih =>
      have hready := (s.plan_extends o hr).ready hr
      rcases ih hready hl with hl | hl
      · have hframes := s.plan_frames o hr
        rw [ScopeTree.frames_eq hready.lt_size,
          ScopeTree.frames_eq hr.lt_size] at hframes
        cases s with
        | declare l' =>
            rw [Stmt.declares, Local.declareIn] at hframes
            split at hframes
            · rw [(List.cons.inj hframes).1] at hl
              exact .inl hl
            · rw [(List.cons.inj hframes).1, List.mem_append, List.mem_singleton] at hl
              rcases hl with hl | rfl
              · exact .inl hl
              · exact .inr (.head _)
        | _ =>
            rw [(List.cons.inj hframes).1] at hl
            exact .inl hl
      · exact .inr (.tail _ hl)

section Split

variable {o : Options} {ctx ctx' : Context} {t t' : ScopeTree} {a b : List Local}
  {F : List (List Local)}

-- A local that does not have the name of one of the earlier locals is declared in one scope with them
-- just if it is declared in a scope of its own.
theorem Local.declareIn_split {l : Local} (hl : ∀ e ∈ a, e.name ≠ l.name) :
    ∃ c, l.declareIn ((a ++ b) :: F) = (a ++ c) :: F ∧ l.declareIn (b :: a :: F) = c :: a :: F ∧
      ∀ e ∈ c, e ∈ b ∨ e = l := by
  have hfree : a.any (·.name == l.name) = false := by simpa using hl
  simp only [Local.declareIn, List.any_append, hfree, Bool.false_or]
  split
  · exact ⟨b, rfl, rfl, fun e he => .inl he⟩
  · exact ⟨b ++ [l], by rw [List.append_assoc], rfl, by simp⟩

-- The statements of a body, once beside the earlier locals and once in a scope inside theirs.
theorem Stmt.planAll_split (h : Context.Paired id ctx ctx' t t' ((a ++ b) :: F) (b :: a :: F))
    (hab : ∀ l ∈ a, ∀ l' ∈ b, l.name ≠ l'.name) (body : List Stmt)
    (hbody : ∀ l ∈ a, ∀ l', .declare l' ∈ body → l.name ≠ l'.name) :
    (Stmt.planAll o ctx body t).Same o id (Stmt.planAll o ctx' body t') ∧
      ∃ c, Context.Paired id ctx ctx' (Stmt.planAll o ctx body t).scopes
        (Stmt.planAll o ctx' body t').scopes ((a ++ c) :: F) (c :: a :: F) := by
  induction body generalizing t t' b with
  | nil => exact ⟨⟨rfl, .same []⟩, b, h⟩
  | cons s body ih =>
      have hF := Local.corresponds_split hab F
      -- one statement, and the locals behind it
      obtain ⟨hfirst, c, hac, hafter⟩ : (s.plan o ctx t).Same o id (s.plan o ctx' t') ∧
          ∃ c, (∀ l ∈ a, ∀ l' ∈ c, l.name ≠ l'.name) ∧
            Context.Paired id ctx ctx' (s.plan o ctx t).scopes (s.plan o ctx' t').scopes
              ((a ++ c) :: F) (c :: a :: F) := by
        have hafter := h.after o s s
        by_cases hs : ∃ l, s = .declare l
        · obtain ⟨l, rfl⟩ := hs
          have hl : ∀ e ∈ a, e.name ≠ l.name := fun e he => hbody e he l (.head _)
          have hplan := l.plan_same (o := o) h hF (by
            rw [List.find?_append, Local.find?_eq_none_of_ne hl, Option.none_or, Local.rename_id,
              Option.map_id]
            rfl)
          rw [Local.rename_id, id] at hplan
          obtain ⟨c, hc, hc', hmem⟩ := Local.declareIn_split (b := b) (F := F) hl
          rw [Stmt.declares, Stmt.declares, hc, hc'] at hafter
          refine ⟨hplan, c, fun e he e' he' => ?_, hafter⟩
          rcases hmem e' he' with he' | rfl
          · exact hab e he e' he'
          · exact hl e he
        · have hs : ∀ l, s ≠ .declare l := fun l hl => hs ⟨l, hl⟩
          have hplan := Stmt.plan_same o Function.injective_id h hF s hs
          rw [Stmt.rename_id] at hplan
          rw [Stmt.declares_of_ne hs, Stmt.declares_of_ne hs] at hafter
          exact ⟨hplan, b, hab, hafter⟩
      obtain ⟨hrest, hend⟩ := ih hafter hac fun e he l hl => hbody e he l (.tail _ hl)
      refine ⟨⟨?_, hfirst.problems.append hrest.problems⟩, hend⟩
      simp only [Stmt.planAll, Command.emitAll_append, hfirst.blocks_eq, hrest.blocks_eq]

end Split

-- What the locals of a scope and those of a scope inside it leave to be released, is the same as if
-- they were in one scope.
theorem ScopeTree.releases_split {t t' : ScopeTree} {i j k : Nat} {a c : List Local}
    (h : t.locals i = a ++ c) (hinner : t'.locals j = c) (houter : t'.locals k = a) :
    t.releases i = t'.releases j ++ t'.releases k := by
  simp only [ScopeTree.releases_eq, h, hinner, houter, List.reverse_append, List.map_append,
    List.filter_append]

theorem Method.plan_trailing_scope (o : Options) (ctx : Context) (m : Method) {A B : List Stmt}
    (hAB : ∀ l l', .declare l ∈ A → .declare l' ∈ B → l.name ≠ l'.name) (loc : Location) :
    Command.emitAll o (Method.plan o ctx { m with body := A ++ [.scope B loc] }).code =
      Command.emitAll o (Method.plan o ctx { m with body := A ++ B }).code ∧
    (Method.plan o ctx { m with body := A ++ [.scope B loc] }).problems =
      (Method.plan o ctx { m with body := A ++ B }).problems := by
  let c := ctx.withScope 0
  let t₁ := (ScopeTree.createRoot { method := some { m with body := A ++ B } }).2
  let t₂ := (ScopeTree.createRoot { method := some { m with body := A ++ [.scope B loc] } }).2
  have hroot : Context.Paired id c c t₁ t₂ [[]] [[]] :=
    Context.paired_createRoot Function.injective_id _ _ _ rfl rfl rfl fun _ _ => rfl
  -- the statements before the scope
  obtain ⟨hfirst, a, hA⟩ :=
    Stmt.planAll_same o Function.injective_id hroot Local.corresponds_nil A
  rw [Stmt.renameAll_id, Local.rename_id, List.map_id] at hA
  rw [Stmt.renameAll_id] at hfirst
  have ha : ∀ l ∈ a, ∀ l', .declare l' ∈ B → l.name ≠ l'.name := by
    intro l hl l' hl'
    rw [← hA.locals_eq.1] at hl
    rcases Stmt.planAll_locals o hroot.ready A hl with hl | hl
    · rw [hroot.locals_eq.1] at hl
      cases hl
    · exact hAB l l' hl hl'
  -- the statements inside it
  obtain ⟨hrest, b, hend⟩ := Stmt.planAll_split (o := o) (b := []) (a := a) (by simpa using hA.enter')
    (by simp) B ha
  -- after them the locals from before the scope are left
  have hleave := (hA.leave o [] B).locals_eq.2
  have hreleases := ScopeTree.releases_split hend.locals_eq.1 hend.locals_eq.2 hleave
  have hblocks := congrArg (Command.emitAll o) hreleases
  rw [Command.emitAll_append] at hblocks
  refine ⟨?_, ?_⟩
  · simp only [Method.plan, Stmt.planAll_append, Stmt.planAll, Stmt.plan, Plan.nested,
      Command.emitAll_append, Command.emitAll, Command.emit, List.append_nil, List.append_assoc]
    exact congrArg₂ (· ++ ·) hfirst.blocks_eq (congrArg₂ (· ++ ·) hrest.blocks_eq hblocks.symm)
  · simp only [Method.plan, Stmt.planAll_append, Stmt.planAll, Stmt.plan, Plan.nested,
      List.append_nil]
    exact (hfirst.problems.append hrest.problems).eq_of_id.symm

-- Braces around the end of a body are the same as none, unless a local inside them has the name of one
-- declared before them. Around a whole body they never make a difference.
theorem lowerMethod_trailing_scope (o : Options) (ctx : Context) (m : Method) (r : Report) :
    (∀ (A B : List Stmt) (loc : Location),
      (∀ l l', .declare l ∈ A → .declare l' ∈ B → l.name ≠ l'.name) →
      ∃ p r₁ r₂, lowerMethod o ctx { m with body := A ++ B } r = (.ok p, r₁) ∧
        lowerMethod o ctx { m with body := A ++ [.scope B loc] } r = (.ok p, r₂) ∧
        r₁.diagnostics = r₂.diagnostics) ∧
    (∀ (B : List Stmt) (loc : Location),
      ∃ p r₁ r₂, lowerMethod o ctx { m with body := B } r = (.ok p, r₁) ∧
        lowerMethod o ctx { m with body := [.scope B loc] } r = (.ok p, r₂) ∧
        r₁.diagnostics = r₂.diagnostics) := by
  have htrailing (A B : List Stmt) (loc : Location)
      (hAB : ∀ l l', .declare l ∈ A → .declare l' ∈ B → l.name ≠ l'.name) :
      ∃ p r₁ r₂, lowerMethod o ctx { m with body := A ++ B } r = (.ok p, r₁) ∧
        lowerMethod o ctx { m with body := A ++ [.scope B loc] } r = (.ok p, r₂) ∧
        r₁.diagnostics = r₂.diagnostics := by
    obtain ⟨hblocks, hproblems⟩ := m.plan_trailing_scope o ctx hAB loc
    obtain ⟨r₁, hrun₁, hds₁⟩ := lowerMethod_run o ctx { m with body := A ++ B } r
    obtain ⟨r₂, hrun₂, hds₂⟩ := lowerMethod_run o ctx { m with body := A ++ [.scope B loc] } r
    refine ⟨_, r₁, r₂, hrun₁, ?_, by rw [hds₁, hds₂, hproblems]⟩
    rw [hrun₂, Method.procedure, hblocks]
    rfl
  exact ⟨htrailing, fun B loc => htrailing [] B loc (by simp)⟩

-- The sample method with its last three statements in braces: a local, a loop that returns from inside
-- another scope, and an inline loop.
theorem lowerMethod_trailing_scope_sample :
    ∃ p r₁ r₂, lowerMethod {} .sample .sample {} = (.ok p, r₁) ∧
      lowerMethod {} .sample { Method.sample with
        body := Method.sample.body.take 2 ++ [.scope (Method.sample.body.drop 2) ⟨0, ⟨0, 0⟩⟩] } {} =
        (.ok p, r₂) ∧ r₁.diagnostics = r₂.diagnostics := by
  have hnames : ∀ l l', .declare l ∈ Method.sample.body.take 2 →
      .declare l' ∈ Method.sample.body.drop 2 → l.name ≠ l'.name := by
    intro l l' hl hl'
    simp only [Method.sample, List.take_succ_cons, List.take_zero, List.drop_succ_cons, List.drop_zero,
      List.mem_cons, Stmt.declare.injEq, List.not_mem_nil, or_false, reduceCtorEq] at hl hl'
    rcases hl with rfl | rfl <;> subst hl' <;> decide
  have hbody : { Method.sample with
      body := Method.sample.body.take 2 ++ Method.sample.body.drop 2 } = Method.sample := rfl
  have h := (lowerMethod_trailing_scope {} .sample .sample {}).1 (Method.sample.body.take 2)
    (Method.sample.body.drop 2) ⟨0, ⟨0, 0⟩⟩ hnames
  rwa [hbody] at h

end SpriteCompiler
