import SpriteCompiler.Proofs.Code.Typing
import SpriteCompiler.Proofs.Program.Everywhere

namespace SpriteCompiler

open ScopeTree (Slot cells)

variable {o : Options} {ctx : Context} {t : ScopeTree} {x : String} {l : Local}

-- The slots of a local where it is named, and how many lie after them.
theorem Site.split (h : t.search? ctx.here x = some l) (pending : List Slot) :
    ∃ i before after, Site.owner? ⟨t, ctx.here, x, pending.length⟩ = some i ∧
      t.layout ctx.here ++ pending = before ++ cells i l ++ after ∧
      Site.depth ⟨t, ctx.here, x, pending.length⟩ = after.length := by
  obtain ⟨i, before, after, howner, hlayout, hdepth⟩ := ScopeTree.layout_split h
  refine ⟨i, before, after ++ pending, howner, by simp [hlayout], ?_⟩
  simp [Site.depth, hdepth]

theorem getElem?_cells {i k : Nat} {before after : List Slot} (hk : k < l.slots) :
    (before ++ cells i l ++ after)[before.length + k]? = some ⟨i, l, k⟩ := by
  rw [List.append_assoc, List.getElem?_append_right (by omega),
    List.getElem?_append_left (by rw [ScopeTree.length_cells]; omega)]
  simp [cells, hk]

theorem Site.hits_cell (pending : List Slot) (h : t.search? ctx.here x = some l)
    (hslots : l.slots = 1) (hnodup : (t.layout ctx.here ++ pending).Nodup)
    (hfit : (t.layout ctx.here ++ pending).length < 2 ^ 32) :
    (Mark.cell ⟨t, ctx.here, x, pending.length⟩ (Stack.slotIndex o.stackList
      (Site.depth ⟨t, ctx.here, x, pending.length⟩))).Hits o.stackList
      (t.layout ctx.here ++ pending) := by
  obtain ⟨i, before, after, howner, hlayout, hdepth⟩ := Site.split h pending
  have hlen : (t.layout ctx.here ++ pending).length = before.length + 1 + after.length := by
    simp only [hlayout, List.length_append, ScopeTree.length_cells, hslots]
  refine ⟨hnodup, i, l, before.length, howner, ScopeTree.search_of_search? h, hslots, ?_,
    fun below value => ?_⟩
  · rw [hlayout]
    exact getElem?_cells (k := 0) (by omega)
  · rw [hdepth, Stack.position?_slotIndex (by omega) (by omega), hlen]
    congr 1
    omega

theorem Site.hits_element (pending : List Slot) (h : t.search? ctx.here x = some l)
    (operand : Param) (hnodup : (t.layout ctx.here ++ pending).Nodup)
    (hfit : (t.layout ctx.here ++ pending).length < 2 ^ 32) :
    (Mark.element ⟨t, ctx.here, x, pending.length⟩ l.slots operand (Stack.itemIndex o.stackList
      (Site.depth ⟨t, ctx.here, x, pending.length⟩) l.slots operand)).Hits o.stackList
      (t.layout ctx.here ++ pending) := by
  obtain ⟨i, before, after, howner, hlayout, hdepth⟩ := Site.split h pending
  have hlen : (t.layout ctx.here ++ pending).length =
      before.length + l.slots + after.length := by
    simp only [hlayout, List.length_append, ScopeTree.length_cells]
  refine ⟨hnodup, i, l, before.length, howner, ScopeTree.search_of_search? h, rfl,
    fun k hk => ⟨?_, fun below value hvalue => ?_⟩⟩
  · rw [hlayout]
    exact getElem?_cells hk
  · rw [hdepth, Stack.position?_itemIndex (by omega) (by omega) hvalue, hlen]
    congr 1
    omega

-- All that an expression reads from the stack is where it is looked for.
theorem Expr.marks_hit (o : Options) (pending : List Slot) (hr : ctx.Ready t)
    (hnodup : (t.layout ctx.here ++ pending).Nodup)
    (hfit : (t.layout ctx.here ++ pending).length < 2 ^ 32) (e : Expr) :
    ∀ m ∈ (e.operand ctx t pending.length).marks o,
      m.Hits o.stackList (t.layout ctx.here ++ pending) := by
  induction e with
  | literal value _ => simp [Expr.operand, Operand.marks]
  | lookup x _ =>
      rw [Expr.operand, Context.operand]
      cases hb : ctx.resolve? t x with
      | none => simp [Operand.marks]
      | some b =>
          cases b with
          | localVariable v =>
              have hsearch := Context.search?_of_resolve? (l := .variable v) hr.inside hb
              by_cases hv : v.slots = 1
              · intro m hm
                simp only [hv, if_true, Operand.marks, List.mem_singleton] at hm
                subst hm
                exact Site.hits_cell pending hsearch (by simp [Local.slots, hv]) hnodup hfit
              · simp [hv, Operand.marks]
          | _ => simp [Operand.marks]
  | item x index _ ih =>
      rw [Expr.operand]
      cases hb : ctx.resolve? t x with
      | none => simp [Operand.marks]
      | some b =>
          cases b with
          | globalList g =>
              intro m hm
              rw [Operand.marks, List.mem_append] at hm
              obtain hm | hm := hm
              · exact ih m hm
              · split at hm
                · obtain rfl := List.mem_singleton.mp hm
                  trivial
                · simp at hm
          | localArray a =>
              have hsearch := Context.search?_of_resolve? (l := .array a) hr.inside hb
              intro m hm
              rw [Operand.marks, List.mem_append, List.mem_singleton] at hm
              obtain hm | rfl := hm
              · exact ih m hm
              · exact Site.hits_element pending hsearch _ hnodup hfit
          | _ => simp [Operand.marks]
  | unary op e _ ih => exact ih
  | binary op a b _ iha ihb =>
      intro m hm
      rw [Expr.operand, Operand.marks, List.mem_append] at hm
      exact hm.elim (iha m) (ihb m)

-- The first slots of a local.
theorem take_cells (i : Nat) (l : Local) {n : Nat} (hn : n ≤ l.slots) :
    (cells i l).take n = (List.range n).map fun k => ⟨i, l, k⟩ := by
  rw [cells, ← List.map_take, List.take_range, Nat.min_eq_left hn]

-- Pushing a local whose name is free. The initializer of a slot sees the slots before it, which are
-- the beginning of what the stack will be like when all are pushed.
theorem Local.pushes_fine (o : Options) {t' : ScopeTree} (hr : ctx.Ready t)
    (hd : ScopeTree.Declared t t' ctx.here l) (hfit : (t'.layout ctx.here).length < 2 ^ 32) :
    Command.Fine o (t.layout ctx.here) (l.pushes ctx t) (t'.layout ctx.here) := by
  have hlayout := hd.layout_eq
  have hnodup := ScopeTree.nodup_layout (hd.valid hr.valid) (hd.size_eq ▸ hd.lt_size)
  rw [hlayout] at hfit hnodup ⊢
  have hpush (n : Nat) (hn : n ≤ l.slots) : Command.Fine o (t.layout ctx.here)
      ((List.range n).map fun k => .push ⟨ctx.here, l, k⟩ (l.initial ctx t k))
      (t.layout ctx.here ++ (cells ctx.here l).take n) := by
    induction n with
    | zero => simpa using Command.Fine.nil
    | succ n ih =>
        have hlen : ((cells ctx.here l).take n).length = n := by
          rw [List.length_take, ScopeTree.length_cells]
          omega
        have hprefix : t.layout ctx.here ++ (cells ctx.here l).take n <+:
            t.layout ctx.here ++ cells ctx.here l :=
          (List.prefix_append_right_inj _).mpr (List.take_prefix _ _)
        have hhit (e : Expr) := Expr.marks_hit o ((cells ctx.here l).take n) hr
          (hnodup.sublist hprefix.sublist) (Nat.lt_of_le_of_lt hprefix.length_le hfit) e
        simp only [hlen] at hhit
        have hvalue : ∀ m ∈ (l.initial ctx t n).marks o, m.Hits o.stackList
            (t.layout ctx.here ++ (cells ctx.here l).take n) := by
          obtain v | a := l
          · simp only [Local.initial]
            cases v.value with
            | none => simp [Operand.marks]
            | some e => exact hhit e
          · simp only [Local.initial]
            cases a.items[n]? with
            | none => simp [Operand.marks]
            | some e => exact hhit e
        have hlast : (cells ctx.here l).take (n + 1) =
            (cells ctx.here l).take n ++ [⟨ctx.here, l, n⟩] := by
          rw [take_cells _ _ hn, take_cells _ _ (by omega), List.range_succ, List.map_append]
          rfl
        rw [List.range_succ, List.map_append, hlast, ← List.append_assoc]
        exact (ih (by omega)).comp (Command.Fine.push hvalue)
  have hall := hpush l.slots (Nat.le_refl _)
  rw [List.take_of_length_le (by rw [ScopeTree.length_cells])] at hall
  exact hall

-- Releasing the locals of a scope, and those of all scopes outward.

theorem ScopeTree.releases_fine (o : Options) (t : ScopeTree) (i : Nat) {T : List Slot}
    (hfit : (T ++ (t.scopeCells i).flatMap Prod.snd).length < 2 ^ 32) :
    Command.Fine o (T ++ (t.scopeCells i).flatMap Prod.snd) (t.releases i) T := by
  rw [releases]
  rw [scopeCells, List.flatMap_map] at hfit ⊢
  generalize t.locals i = locals at hfit ⊢
  induction locals using List.reverseRecOn with
  | nil => simpa using Command.Fine.nil
  | append_singleton ls l ih =>
      simp only [List.flatMap_append, List.flatMap_singleton, List.reverse_append,
        List.reverse_singleton, List.singleton_append, ← List.append_assoc] at hfit ⊢
      have hrest := ih (by simp only [List.length_append] at hfit ⊢; omega)
      by_cases hl : 0 < l.slots
      · rw [List.filter_cons_of_pos (by simpa using hl), List.map_cons, ← length_cells i l]
        have hlt : (cells i l).length < 2 ^ 32 := by
          rw [List.length_append] at hfit
          omega
        exact (Command.Fine.release (cells i l) hlt).comp hrest
      · rw [List.filter_cons_of_neg (by simpa using hl)]
        have hnone : cells i l = [] := List.eq_nil_of_length_eq_zero (by rw [length_cells]; omega)
        rw [hnone, List.append_nil]
        exact hrest

theorem ScopeTree.unwind_fine (o : Options) (t : ScopeTree) (ids : List Nat)
    (hfit : (Frames.stack (ids.map t.scopeCells)).length < 2 ^ 32) :
    Command.Fine o (Frames.stack (ids.map t.scopeCells)) (ids.flatMap t.releases) [] := by
  induction ids with
  | nil => exact Command.Fine.nil
  | cons i ids ih =>
      simp only [List.map_cons, Frames.stack, List.flatMap_cons] at hfit ⊢
      refine (releases_fine o t i hfit).comp (ih ?_)
      rw [List.length_append] at hfit
      omega

-- The parts of statements.

section Parts

variable (o : Options) (hr : ctx.Ready t)
  (hfit : Local.slotTotal (t.frames ctx.here) < 2 ^ 32)

include hr hfit

theorem Expr.value_hits (e : Expr) :
    ∀ m ∈ (e.operand ctx t 0).marks o, m.Hits o.stackList (t.layout ctx.here) := by
  have hnodup := ScopeTree.nodup_layout hr.valid hr.lt_size
  rw [← ScopeTree.length_layout] at hfit
  have hhits := Expr.marks_hit o [] hr (by simpa using hnodup) (by simpa using hfit) e
  rwa [List.append_nil] at hhits

theorem Site.cell_hits {l : Local} (h : t.search? ctx.here x = some l) (hslots : l.slots = 1) :
    (Mark.cell ⟨t, ctx.here, x, 0⟩ (Stack.slotIndex o.stackList
      (Site.depth ⟨t, ctx.here, x, 0⟩))).Hits o.stackList (t.layout ctx.here) := by
  have hnodup := ScopeTree.nodup_layout hr.valid hr.lt_size
  rw [← ScopeTree.length_layout] at hfit
  have hhits := Site.hits_cell (o := o) [] h hslots (by simpa using hnodup)
    (by simpa using hfit)
  rwa [List.append_nil] at hhits

theorem Operand.conjunction_hits (loc : Location) (conditions : List Expr) :
    ∀ m ∈ (conjunction loc (conditions.map fun e => e.operand ctx t 0)).marks o,
      m.Hits o.stackList (t.layout ctx.here) := by
  induction conditions with
  | nil => simp [conjunction, marks]
  | cons e rest ih =>
      have he := Expr.value_hits o hr hfit e
      cases rest with
      | nil => exact he
      | cons e' rest =>
          intro m hm
          simp only [List.map_cons, conjunction, marks, List.mem_append] at hm ih
          exact hm.elim (he m) (ih m)

theorem Assignment.amount_hits (loc : Location) (a : Assignment) :
    ∀ m ∈ (a.amount ctx t loc).marks o, m.Hits o.stackList (t.layout ctx.here) := by
  have he := Expr.value_hits o hr hfit
  cases a with
  | add e => exact he e
  | subtract e => exact he e
  | _ => simp [Assignment.amount, Operand.marks]

theorem Assignment.result_hits (loc : Location) (a : Assignment) {current : Operand}
    (hcurrent : ∀ m ∈ current.marks o, m.Hits o.stackList (t.layout ctx.here)) :
    ∀ m ∈ (a.result ctx t loc current).marks o, m.Hits o.stackList (t.layout ctx.here) := by
  have hboth {next : Operand}
      (hnext : ∀ m ∈ next.marks o, m.Hits o.stackList (t.layout ctx.here)) :
      ∀ m ∈ current.marks o ++ next.marks o, m.Hits o.stackList (t.layout ctx.here) :=
    fun m hm => (List.mem_append.mp hm).elim (hcurrent m) (hnext m)
  have he := Expr.value_hits o hr hfit
  have hamount := Assignment.amount_hits o hr hfit loc a
  cases a with
  | set e => exact he e
  | join e => exact hboth (he e)
  | _ => exact hboth hamount

theorem Assignment.code_fine (loc : Location) (a : Assignment) :
    Command.Fine o (t.layout ctx.here) (a.code ctx t loc x) (t.layout ctx.here) := by
  rw [Assignment.code]
  cases hb : ctx.resolve? t x with
  | none => exact Command.Fine.nil
  | some b =>
      cases b with
      | localVariable v =>
          have hsearch := Context.search?_of_resolve? (l := .variable v) hr.inside hb
          by_cases hv : v.slots = 1
          · have hcell := Site.cell_hits o hr hfit hsearch (by simp [Local.slots, hv])
            simp only [hv, if_true]
            exact Command.Fine.store
              (Assignment.result_hits o hr hfit loc a (by simpa [Operand.marks] using hcell)) hcell
          · simp only [hv, if_false]
            exact Command.Fine.nil
      | globalVariable v =>
          have hcurrent : ∀ m ∈ (Operand.global v.name).marks o,
              m.Hits o.stackList (t.layout ctx.here) := by simp [Operand.marks]
          have hresult := Assignment.result_hits o hr hfit loc a hcurrent
          have hamount := Assignment.amount_hits o hr hfit loc a
          cases a with
          | set e => exact Command.Fine.setVariable hresult
          | join e => exact Command.Fine.setVariable hresult
          | _ => exact Command.Fine.changeVariable hamount
      | _ => exact Command.Fine.nil

theorem storeResult_fine (value : Option Expr) :
    Command.Fine o (t.layout ctx.here) (storeResult o ctx t value) (t.layout ctx.here) := by
  obtain ⟨m, hm⟩ := Option.isSome_iff_exists.mp hr.hasMethod
  cases value with
  | none => exact Command.Fine.nil
  | some e =>
      simp only [storeResult, hm]
      cases m.returnType with
      | none => exact Command.Fine.nil
      | some type => exact Command.Fine.setVariable (Expr.value_hits o hr hfit e)

-- A return releases everything, and what comes after it may have any type.
theorem return_fine (value : Option Expr) (T : List Slot) :
    Command.Fine o (t.layout ctx.here) (storeResult o ctx t value ++
      ((t.lineage ctx.here).flatMap t.releases ++ [.stop])) T := by
  refine (storeResult_fine o hr hfit value).comp (Command.Fine.comp ?_ Command.Fine.stop)
  rw [← ScopeTree.length_layout] at hfit
  exact ScopeTree.unwind_fine o t (t.lineage ctx.here) hfit

omit hfit in
theorem Local.plan_fine (l : Local)
    (hfit : Local.slotTotal (l.declareIn (t.frames ctx.here)) < 2 ^ 32) :
    Command.Fine o (t.layout ctx.here) (l.plan ctx t).code
      ((l.plan ctx t).scopes.layout ctx.here) := by
  rw [← l.plan_frames hr, ← ScopeTree.length_layout] at hfit
  obtain ⟨t', hresult⟩ | ⟨d, hresult⟩ := ScopeTree.exists_declare hr.lt_size l
  · rw [Local.plan, hresult] at hfit ⊢
    exact l.pushes_fine o hr (ScopeTree.declared_of_declare hresult) hfit
  · rw [Local.plan, hresult]
    exact Command.Fine.nil

end Parts

-- Whole statements.

theorem Stmt.slotTotal_declares {F : List (List Local)} {s : Stmt}
    (h : s.Everywhere .slotsFit F) (hfit : Local.slotTotal F < 2 ^ 32) :
    Local.slotTotal (s.declares F) < 2 ^ 32 := by
  cases s with
  | declare l => exact h.1
  | _ => exact hfit

theorem Stmt.planAll_fits (o : Options) {ctx : Context} {t : ScopeTree} (hr : ctx.Ready t)
    (hfit : Local.slotTotal (t.frames ctx.here) < 2 ^ 32) (body : List Stmt)
    (h : EverywhereIn .slotsFit (t.frames ctx.here) body) :
    Local.slotTotal ((Stmt.planAll o ctx body t).scopes.frames ctx.here) < 2 ^ 32 := by
  induction body generalizing t with
  | nil => exact hfit
  | cons s rest ih =>
      obtain ⟨hs, hrest⟩ := h
      have hframes := s.plan_frames o hr
      rw [← hframes] at hrest
      refine ih ((s.plan_extends o hr).ready hr) ?_ hrest
      rw [hframes]
      exact slotTotal_declares hs hfit

-- Only a declaration changes what is on the stack.
theorem Stmt.layout_plan (o : Options) {ctx : Context} {t : ScopeTree} (hr : ctx.Ready t) {s : Stmt}
    (hs : ∀ l, s ≠ .declare l) : (s.plan o ctx t).scopes.layout ctx.here = t.layout ctx.here := by
  have hkept := (Stmt.plan_untouched o hr hs).tagged_eq (Nat.le_refl _) hr.lt_size
  rw [ScopeTree.layout, hkept]
  rfl

theorem Plan.nested_fine (o : Options) {ctx : Context} {t : ScopeTree} (hr : ctx.Ready t)
    (hfit : Local.slotTotal (t.frames ctx.here) < 2 ^ 32) (body : List Stmt)
    (h : Stmt.EverywhereIn .slotsFit ([] :: t.frames ctx.here) body)
    (hbody : ∀ {ctx : Context} {t : ScopeTree}, ctx.Ready t →
      Local.slotTotal (t.frames ctx.here) < 2 ^ 32 →
      Stmt.EverywhereIn .slotsFit (t.frames ctx.here) body →
      Command.Fine o (t.layout ctx.here) (Stmt.planAll o ctx body t).code
        ((Stmt.planAll o ctx body t).scopes.layout ctx.here)) :
    Command.Fine o (t.layout ctx.here)
      (Plan.nested ctx t fun inner t => Stmt.planAll o inner body t).code
      (t.layout ctx.here) := by
  have hready := hr.child
  have hframes := ScopeTree.frames_child hr.lt_size
  have hinner : Local.slotTotal ((t.child ctx.here).frames t.size) < 2 ^ 32 := by
    rw [hframes]
    simpa [Local.slotTotal, Local.slotCount] using hfit
  have hin : Stmt.EverywhereIn .slotsFit ((t.child ctx.here).frames t.size) body := by
    rw [hframes]
    exact h
  have hext := Stmt.planAll_extends o hready body
  have hnested := ScopeTree.layout_nested hr.lt_size hext.grows
  have hfine := hbody hready hinner hin
  have hend := Stmt.planAll_fits o hready hinner body hin
  rw [← ScopeTree.length_layout] at hend
  change Command.Fine o ((t.child ctx.here).layout t.size) _ _ at hfine
  rw [ScopeTree.layout_child hr.lt_size] at hfine
  change (ScopeTree.layout _ t.size).length < 2 ^ 32 at hend
  rw [hnested] at hend
  refine hfine.comp ?_
  change Command.Fine o (ScopeTree.layout _ t.size) _ _
  rw [hnested]
  exact ScopeTree.releases_fine o _ _ hend

mutual

theorem Stmt.plan_fine (o : Options) {ctx : Context} {t : ScopeTree} (hr : ctx.Ready t)
    (hfit : Local.slotTotal (t.frames ctx.here) < 2 ^ 32) :
    ∀ s : Stmt, s.Everywhere .slotsFit (t.frames ctx.here) →
      Command.Fine o (t.layout ctx.here) (s.plan o ctx t).code
        ((s.plan o ctx t).scopes.layout ctx.here)
  | .declare l, h => l.plan_fine o hr h.1
  | .assign _ a loc, _ => Assignment.code_fine o hr hfit loc a
  | .repeatLoop inline count body loc, h => by
      -- The count is compiled after the body, in the scopes the body leaves behind.
      have hready := (Stmt.plan_extends o hr (.repeatLoop inline count body loc)).ready hr
      have hframes := Stmt.plan_frames o hr (.repeatLoop inline count body loc)
      have hlayout := Stmt.layout_plan o hr (s := .repeatLoop inline count body loc) (by simp)
      have hbody := Plan.nested_fine o hr hfit body h.2 fun hr hfit h =>
        Stmt.planAll_fine o hr hfit body h
      have hcount := Expr.value_hits o hready (by rw [hframes]; exact hfit) count
      rw [hlayout] at hcount ⊢
      rw [Stmt.plan] at hcount ⊢
      cases inline with
      | true => exact hbody.scopes _
      | false => exact Command.Fine.repeatTimes hcount hbody
  | .whileLoop condition body loc, h => by
      have hbody := Plan.nested_fine o hr hfit body h.2 fun hr hfit h =>
        Stmt.planAll_fine o hr hfit body h
      rw [Stmt.layout_plan o hr (s := .whileLoop condition body loc) (by simp), Stmt.plan]
      exact Command.Fine.repeatUntil (Expr.value_hits o hr hfit condition) hbody
  | .forever body loc, h => by
      have hbody := Plan.nested_fine o hr hfit body h fun hr hfit h =>
        Stmt.planAll_fine o hr hfit body h
      rw [Stmt.layout_plan o hr (s := .forever body loc) (by simp), Stmt.plan]
      exact Command.Fine.forever hbody
  | .branch condition thenBody elseBody loc, h => by
      have hext := Plan.nested_extends hr fun hr => Stmt.planAll_extends o hr thenBody
      have hkept := (Plan.nested_grows hr fun hr => Stmt.planAll_extends o hr thenBody).1
      have hframes := hkept.frames_eq (Nat.le_refl _) hr.lt_size
      have hlayout := hkept.tagged_eq (Nat.le_refl _) hr.lt_size
      have hcondition := Expr.value_hits o hr hfit condition
      have hfirst := Plan.nested_fine o hr hfit thenBody h.2.1 fun hr hfit h =>
        Stmt.planAll_fine o hr hfit thenBody h
      -- The scopes of the first body stay in the tree, but the second one does not see them.
      have hsecond := Plan.nested_fine o (hext.ready hr) (by rw [hframes]; exact hfit) elseBody
        (by rw [hframes]; exact h.2.2) fun hr hfit h => Stmt.planAll_fine o hr hfit elseBody h
      rw [ScopeTree.layout, hlayout, ← ScopeTree.layout] at hsecond
      rw [Stmt.layout_plan o hr (s := .branch condition thenBody elseBody loc) (by simp), Stmt.plan]
      split
      · exact Command.Fine.ifThen hcondition hfirst
      · exact Command.Fine.ifThenElse hcondition hfirst hsecond
  | .switch subject cases loc, h => by
      rw [Stmt.layout_plan o hr (s := .switch subject cases loc) (by simp), Stmt.plan]
      exact Stmt.planCases_fine o hr hfit cases h
  | .ret value _, _ => return_fine o hr hfit value _
  | .scope body loc, h => by
      have hbody := Plan.nested_fine o hr hfit body h fun hr hfit h =>
        Stmt.planAll_fine o hr hfit body h
      rw [Stmt.layout_plan o hr (s := .scope body loc) (by simp), Stmt.plan]
      exact hbody.scope

theorem Stmt.planAll_fine (o : Options) {ctx : Context} {t : ScopeTree} (hr : ctx.Ready t)
    (hfit : Local.slotTotal (t.frames ctx.here) < 2 ^ 32) :
    ∀ body : List Stmt, EverywhereIn .slotsFit (t.frames ctx.here) body →
      Command.Fine o (t.layout ctx.here) (Stmt.planAll o ctx body t).code
        ((Stmt.planAll o ctx body t).scopes.layout ctx.here)
  | [], _ => Command.Fine.nil
  | s :: rest, h => by
      have hframes := s.plan_frames o hr
      have hrest := h.2
      rw [← hframes] at hrest
      refine (Stmt.plan_fine o hr hfit s h.1).comp
        (Stmt.planAll_fine o ((s.plan_extends o hr).ready hr) ?_ rest hrest)
      rw [hframes]
      exact slotTotal_declares h.1 hfit

theorem Stmt.planCases_fine (o : Options) {ctx : Context} {t : ScopeTree} (hr : ctx.Ready t)
    (hfit : Local.slotTotal (t.frames ctx.here) < 2 ^ 32) :
    ∀ cases : List Case, EverywhereInCases .slotsFit (t.frames ctx.here) cases →
      Command.Fine o (t.layout ctx.here) (Stmt.planCases o ctx cases t).code (t.layout ctx.here)
  | [], _ => Command.Fine.nil
  | .mk conditions body isDefault loc :: rest, h => by
      have hext := Plan.nested_extends hr fun hr => Stmt.planAll_extends o hr body
      have hkept := (Plan.nested_grows hr fun hr => Stmt.planAll_extends o hr body).1
      have hframes := hkept.frames_eq (Nat.le_refl _) hr.lt_size
      have hlayout := hkept.tagged_eq (Nat.le_refl _) hr.lt_size
      have hcondition := Operand.conjunction_hits o hr hfit loc conditions
      have hbody := Plan.nested_fine o hr hfit body h.2.1 fun hr hfit h =>
        Stmt.planAll_fine o hr hfit body h
      have hrest := Stmt.planCases_fine o (hext.ready hr) (by rw [hframes]; exact hfit) rest
        (by rw [hframes]; exact h.2.2)
      rw [ScopeTree.layout, hlayout, ← ScopeTree.layout] at hrest
      rw [Stmt.planCases]
      split
      · exact hbody.scope
      · split
        · exact Command.Fine.ifThen hcondition hbody
        · exact Command.Fine.ifThenElse hcondition hbody hrest

end

-- The body of a method starts with nothing of its own on the stack and leaves nothing there.
theorem Method.plan_fine (o : Options) (ctx : Context) {m : Method} (h : m.Everywhere .slotsFit) :
    Command.Fine o [] (m.plan o ctx).code [] := by
  let root := (ScopeTree.createRoot { method := some m }).2
  let p := Stmt.planAll o (ctx.withScope 0) m.body root
  have hr : (ctx.withScope 0).Ready root := ctx.ready_createRoot m
  have hfit : Local.slotTotal (root.frames 0) < 2 ^ 32 := Nat.two_pow_pos 32
  have hext : p.Extends (ctx.withScope 0) root := Stmt.planAll_extends o hr m.body
  have houter : p.scopes.outer 0 = [] := hext.grows.outer_eq hr.lt_size
  have hlayout : p.scopes.layout 0 = [] ++ (p.scopes.scopeCells 0).flatMap Prod.snd := by
    have hsplit := ScopeTree.layout_eq (hr.lt_size.trans_le hext.grows.size_le)
    change p.scopes.layout 0 = Frames.stack ((p.scopes.outer 0).map _) ++ _ at hsplit
    rw [hsplit, houter]
    rfl
  have hend := Stmt.planAll_fits o hr hfit m.body h
  have hbody : Command.Fine o [] p.code (p.scopes.layout 0) :=
    Stmt.planAll_fine o hr hfit m.body h
  rw [← ScopeTree.length_layout] at hend
  change (p.scopes.layout 0).length < 2 ^ 32 at hend
  rw [hlayout] at hend hbody
  exact hbody.comp (ScopeTree.releases_fine o p.scopes 0 hend)

end SpriteCompiler
