import SpriteCompiler.Proofs.Meaning.Values

namespace SpriteCompiler

namespace Activation

variable {V : Type} (A : Activation V) (o : Options)

-- Nothing of the method is left on the stack.
def Ended (s : Store V) (w : Memory V) : Prop :=
  w.globals = s.globals ∧ w.lists = A.lists

-- The method is under way, and its locals are on the stack.
def Underway (s : Store V) (w : Memory V) : Prop :=
  w.globals = s.globals ∧ (∀ l, l ≠ o.stackList → w.lists l = A.lists l) ∧
    w.lists o.stackList = A.lists o.stackList ++ s.frames.stack

-- A run of blocks goes along with a run of the source, after which the locals `F` are in scope.
def Follows (F : List (List Local)) : Outcome (Store V) → Outcome (Memory V) → Prop :=
  Outcome.Related (A.Matches o.stackList F []) A.Ended (A.Underway o)

variable {A o} {ctx : Context} {t : ScopeTree} {F : List (List Local)} {s : Store V} {w : Memory V}
  {n : Nat}

theorem Matches.underway (hw : A.Matches o.stackList F [] s w) : A.Underway o s w :=
  ⟨hw.globals, hw.others, by rw [hw.stack, List.append_nil]⟩

-- Storing in a variable.
theorem Matches.setVariable (hw : A.Matches o.stackList F [] s w) (x : String) (v : V) :
    A.Matches o.stackList F [] (s.setVariable x v) (w.setVariable x v) :=
  ⟨by simp only [Memory.setVariable, Store.setVariable, hw.globals], hw.others, hw.stack, hw.locals,
    hw.filled, hw.fits⟩

end Activation

-- Releasing the locals of a scope, and those of all scopes outward.

section Release

variable {V : Type} {I : Interpretation V} (hI : I.Lawful) (arguments : String → V) (n : Nat)
  {w : Memory V}

include hI

theorem ScopeTree.run_releases (o : Options) (t : ScopeTree) (i : Nat) {xs : List V}
    {f : List (Local × List V)} (hlocals : f.map Prod.fst = t.locals i)
    (hfilled : ∀ p ∈ f, p.2.length = p.1.slots) (hfit : (f.flatMap Prod.snd).length < 2 ^ 32)
    (h : w.lists o.stackList = xs ++ f.flatMap Prod.snd) :
    Block.runAll I arguments n (Command.emitAll o (t.releases i)) w =
      .next (w.setList o.stackList xs) := by
  rw [releases, ← hlocals]
  clear hlocals
  -- The local declared last is released first, so the frame is taken apart at its end.
  induction f using List.reverseRecOn generalizing w with
  | nil =>
      rw [List.flatMap_nil, List.append_nil] at h
      rw [← h, w.setList_self]
      rfl
  | append_singleton f p ih =>
      have hp : p.2.length = p.1.slots := hfilled p (by simp)
      have hrest : ∀ q ∈ f, q.2.length = q.1.slots := fun q hq => hfilled q (by simp [hq])
      simp only [List.flatMap_append, List.flatMap_singleton, List.length_append] at hfit h
      rw [← List.append_assoc] at h
      simp only [List.map_append, List.map_singleton, List.reverse_append, List.reverse_singleton,
        List.singleton_append]
      by_cases hslots : 0 < p.1.slots
      · have hrelease : (Stack.release o.stackList p.1.slots).run I arguments n w =
            .next (w.setList o.stackList (xs ++ f.flatMap Prod.snd)) := by
          rw [← hp]
          exact Stack.run_release hI h (by omega)
        rw [List.filter_cons_of_pos (by simpa using hslots), List.map_cons, Command.emitAll,
          Command.emit, List.singleton_append, Block.runAll, hrelease]
        have hnext := ih (w := w.setList o.stackList (xs ++ f.flatMap Prod.snd)) hrest (by omega)
          (by simp)
        rw [Memory.setList_setList] at hnext
        exact hnext
      · -- A local without slots has no release, and nothing on the stack.
        have hnone : p.2 = [] := List.eq_nil_of_length_eq_zero (by omega)
        rw [hnone, List.append_nil] at h
        rw [List.filter_cons_of_neg (by simpa using hslots)]
        exact ih hrest (by omega) h

theorem ScopeTree.run_unwind (o : Options) (t : ScopeTree) (ids : List Nat) {base : List V}
    {F : Frames V} (hlocals : F.locals = ids.map t.locals) (hfilled : F.Filled)
    (hfit : F.stack.length < 2 ^ 32) (h : w.lists o.stackList = base ++ F.stack) :
    Block.runAll I arguments n (Command.emitAll o (ids.flatMap t.releases)) w =
      .next (w.setList o.stackList base) := by
  induction ids generalizing F w with
  | nil =>
      obtain rfl : F = [] := by simpa [Frames.locals] using hlocals
      rw [Frames.stack, List.append_nil] at h
      rw [← h, w.setList_self]
      rfl
  | cons i ids ih =>
      cases F with
      | nil => simp [Frames.locals] at hlocals
      | cons f outer =>
          simp only [Frames.locals, List.map_cons, List.cons.injEq] at hlocals
          simp only [Frames.stack, List.length_append] at hfit h
          rw [← List.append_assoc] at h
          have hf : ∀ p ∈ f, p.2.length = p.1.slots := fun p hp => hfilled f (by simp) p hp
          have houter : Frames.Filled outer := fun g hg => hfilled g (by simp [hg])
          have hnext := ih (w := w.setList o.stackList (base ++ Frames.stack outer)) hlocals.2 houter
            (by omega) (by simp)
          rw [Memory.setList_setList] at hnext
          rw [List.flatMap_cons, Command.emitAll_append, Block.runAll_append,
            t.run_releases hI arguments n o i hlocals.1 hf (by omega) h]
          exact hnext

end Release

-- Filling the slots of a local.

theorem Local.initial_eq {ctx : Context} {t : ScopeTree} {l : Local} {k : Nat} {e : Expr}
    (h : l.contents[k]? = some e) : l.initial ctx t k = e.operand ctx t k := by
  obtain v | a := l
  · obtain ⟨_, rfl⟩ : k < v.slots.toNat ∧ v.value.getD (.literal v.type.default v.loc) = e := by
      simpa [Local.contents, List.getElem?_replicate] using h
    cases hv : v.value <;> simp [Local.initial, hv, Expr.operand]
  · rw [Local.contents] at h
    simp only [Local.initial, h]

theorem Local.problems_contents {ctx : Context} {t : ScopeTree} {l : Local}
    (h : l.problems ctx t = []) : ∀ e ∈ l.contents, e.problems ctx t = [] := by
  intro e he
  obtain v | a := l
  · obtain ⟨hslots, rfl⟩ := List.mem_replicate.mp he
    cases hv : v.value with
    | none => rfl
    | some e =>
        have hne : v.slots ≠ 0 := fun hzero => hslots (by rw [hzero]; rfl)
        simp only [Local.problems, hv, hne, if_false, List.append_eq_nil_iff] at h
        exact h.2
  · simp only [Local.problems, List.flatMap_eq_nil_iff, List.append_eq_nil_iff] at h
    exact (h e he).2

theorem Local.contents_subset {l : Local} {e : Expr} (h : e ∈ l.contents) :
    e ∈ l.initializers ∨ ∃ value loc, e = .literal value loc := by
  obtain v | a := l
  · obtain ⟨_, rfl⟩ := List.mem_replicate.mp h
    cases hv : v.value with
    | none => exact .inr ⟨_, _, rfl⟩
    | some e => exact .inl (by simp [Local.initializers, hv])
  · exact .inl h

-- The slots are pushed one after the other, and each expression is evaluated with the slots before its
-- own on the stack. What is to hold of expressions and slots is shown for one more slot at a time.
theorem Local.run_pushes {V : Type} {I : Interpretation V} {arguments : String → V} {o : Options}
    {ctx : Context} {t : ScopeTree} {l : Local} {w : Memory V} {Q : List Expr → List V → Prop}
    (n : Nat) (hnil : Q [] [])
    (hstep : ∀ e begun, l.contents[begun.length]? = some e →
      Q (l.contents.take begun.length) begun →
      ∃ v, ((e.operand ctx t begun.length).emit o).value I arguments
          (w.setList o.stackList (w.lists o.stackList ++ begun)) = some v ∧
        Q (l.contents.take begun.length ++ [e]) (begun ++ [v])) :
    ∃ vs, vs.length = l.slots ∧ Q l.contents vs ∧
      Block.runAll I arguments n (Command.emitAll o (l.pushes ctx t)) w =
        .next (w.setList o.stackList (w.lists o.stackList ++ vs)) := by
  have hslots := l.length_contents
  -- The first `k` pushes fill the first `k` slots.
  have hpush (k : Nat) (hk : k ≤ l.slots) : ∃ vs, vs.length = k ∧ Q (l.contents.take k) vs ∧
      Block.runAll I arguments n (Command.emitAll o
        ((List.range k).map fun k => .push ⟨ctx.here, l, k⟩ (l.initial ctx t k))) w =
        .next (w.setList o.stackList (w.lists o.stackList ++ vs)) := by
    induction k with
    | zero => exact ⟨[], rfl, hnil, by rw [List.append_nil, w.setList_self]; rfl⟩
    | succ k ih =>
        obtain ⟨begun, rfl, hbegun, hrun⟩ := ih (by omega)
        obtain ⟨e, hget⟩ : ∃ e, l.contents[begun.length]? = some e :=
          ⟨_, List.getElem?_eq_getElem (by omega)⟩
        obtain ⟨v, hv, hnext⟩ := hstep e begun hget hbegun
        refine ⟨begun ++ [v], by simp, ?_, ?_⟩
        · rw [List.take_add_one, hget]
          exact hnext
        · rw [List.range_succ, List.map_append, Command.emitAll_append, Block.runAll_append, hrun,
            List.map_singleton, Command.emitAll, Command.emit, Command.emitAll, List.append_nil,
            Local.initial_eq hget]
          simp only [Outcome.bind, Block.runAll_singleton, Stack.run_push hv, Memory.lists_setList,
            Memory.setList_setList, List.append_assoc]
  have hall := hpush l.slots (Nat.le_refl _)
  rwa [← hslots, List.take_length, hslots] at hall

namespace Activation

variable {V : Type} {A : Activation V} {o : Options} {ctx : Context} {t : ScopeTree} {l : Local}
  {s : Store V} {w : Memory V} {n : Nat}

theorem fill_append (A : Activation V) (s : Store V) (begun : List V) (es : List Expr) (e : Expr) :
    A.fill s begun (es ++ [e]) =
      A.fill s begun es ++ [A.value s (A.fill s begun es) e] := by
  induction es generalizing begun with
  | nil => rfl
  | cons e' es ih => exact ih _

theorem Matches.push {F : List (List Local)} {begun : List V}
    (hw : A.Matches o.stackList F [] s w) (hfit : Local.slotTotal F + begun.length < 2 ^ 32) :
    A.Matches o.stackList F begun s (w.setList o.stackList (w.lists o.stackList ++ begun)) where
  globals := hw.globals
  others l hl := by rw [w.lists_setList_of_ne hl, hw.others l hl]
  stack := by rw [w.lists_setList, hw.stack, List.append_nil]
  locals := hw.locals
  filled := hw.filled
  fits := hfit

-- Each slot is evaluated with those before it on the stack.
theorem run_pushes (hI : A.interp.Lawful) (hc : A.Compiles o ctx t)
    (hw : A.Matches o.stackList (t.frames ctx.here) [] s w)
    (hfit : Local.slotTotal (t.frames ctx.here) + l.slots < 2 ^ 32)
    (hsound : ∀ e ∈ l.initializers, e.Sound A.interp o A.names (t.frames ctx.here))
    (hclean : l.problems ctx t = []) :
    Block.runAll A.interp A.arguments n (Command.emitAll o (l.pushes ctx t)) w =
      .next (w.setList o.stackList (w.lists o.stackList ++ A.fill s [] l.contents)) := by
  have hslots := l.length_contents
  have hvalue : ∀ e ∈ l.contents, e.Sound A.interp o A.names (t.frames ctx.here) := by
    intro e he
    obtain he | ⟨value, loc, rfl⟩ := Local.contents_subset he
    · exact hsound e he
    · trivial
  have hpushes : ∃ vs, vs.length = l.slots ∧ vs = A.fill s [] l.contents ∧
      Block.runAll A.interp A.arguments n (Command.emitAll o (l.pushes ctx t)) w =
        .next (w.setList o.stackList (w.lists o.stackList ++ vs)) := by
    refine Local.run_pushes (Q := fun es vs => vs = A.fill s [] es) n rfl
      fun e begun hget hbegun => ?_
    have hlt := (List.getElem?_eq_some_iff.mp hget).1
    have hmem := List.mem_of_getElem? hget
    -- What was pushed so far is above the locals, which is the offset the slot is compiled at.
    have hpushed : A.Matches o.stackList (t.frames ctx.here) begun s _ := hw.push (by omega)
    refine ⟨_, value_operand hI hc hpushed e (hvalue e hmem)
      (Local.problems_contents hclean e hmem), ?_⟩
    rw [fill_append, ← hbegun]
  obtain ⟨_, -, rfl, hrun⟩ := hpushes
  exact hrun

-- With all its slots filled, the local is declared.
theorem Matches.declare {f : List Local} {outer : List (List Local)} {vs : List V}
    (hw : A.Matches o.stackList (f :: outer) [] s w) (hvs : vs.length = l.slots)
    (hfit : Local.slotTotal ((f ++ [l]) :: outer) < 2 ^ 32) :
    A.Matches o.stackList ((f ++ [l]) :: outer) [] (s.declare l vs)
      (w.setList o.stackList (w.lists o.stackList ++ vs)) := by
  obtain ⟨globals, frames⟩ := s
  cases frames with
  | nil => simpa [Frames.locals] using hw.locals
  | cons g rest =>
      have hlocals := hw.locals
      simp only [Frames.locals, List.map_cons, List.cons.injEq] at hlocals
      refine ⟨hw.globals, fun l' hl' => ?_, ?_, ?_, ?_, hfit⟩
      · rw [w.lists_setList_of_ne hl', hw.others l' hl']
      · rw [w.lists_setList, hw.stack]
        simp [Store.declare, Frames.stack]
      · simp [Store.declare, Frames.locals, hlocals]
      · intro h hh p hp
        obtain rfl | hh := List.mem_cons.mp hh
        · obtain hp | hp := List.mem_append.mp hp
          · exact hw.filled g (by simp) p hp
          · obtain rfl := List.mem_singleton.mp hp
            exact hvs
        · exact hw.filled h (by simp [hh]) p hp

theorem follows_declare (hI : A.interp.Lawful) (hc : A.Compiles o ctx t)
    (hw : A.Matches o.stackList (t.frames ctx.here) [] s w)
    (h : Stmt.Everywhere (A.demand o) (t.frames ctx.here) (.declare l))
    (hclean : (l.plan ctx t).problems = []) :
    A.Follows o ((l.plan ctx t).scopes.frames ctx.here)
      (.next (s.declare l (A.fill s [] l.contents)))
      (Block.runAll A.interp A.arguments n (Command.emitAll o (l.plan ctx t).code) w) := by
  obtain ⟨⟨hfit, -⟩, hsound⟩ := h
  change Local.slotTotal (l.declareIn (t.frames ctx.here)) < 2 ^ 32 at hfit
  rw [← l.plan_frames hc.ready] at hfit
  obtain ⟨t', hresult⟩ | ⟨d, hresult⟩ := ScopeTree.exists_declare hc.ready.lt_size l
  · have hdecl := ScopeTree.declared_of_declare hresult
    have hframes := ScopeTree.frames_eq hc.ready.lt_size
    rw [Local.plan, hresult] at hclean hfit ⊢
    simp only [hdecl.frames_eq] at hfit ⊢
    have hroom : Local.slotTotal (t.frames ctx.here) + l.slots < 2 ^ 32 := by
      simp only [hframes, Local.slotTotal, Local.slotCount_append, Local.slotCount] at hfit ⊢
      omega
    rw [run_pushes hI hc hw hroom (fun e he => (hsound e he).2) hclean]
    have hfilled : (A.fill s [] l.contents).length = l.slots := by
      rw [A.length_fill, l.length_contents, List.length_nil, Nat.zero_add]
    rw [hframes] at hw
    exact .next (hw.declare hfilled hfit)
  · rw [Local.plan, hresult] at hclean
    simp at hclean

end Activation

-- Assignments.

namespace Activation

section Assign

variable {V : Type} {A : Activation V} {o : Options} {ctx : Context} {t : ScopeTree} {x : String}
  {s : Store V} {w : Memory V} {n : Nat} {a : Assignment} (hI : A.interp.Lawful)
  (hc : A.Compiles o ctx t) (hw : A.Matches o.stackList (t.frames ctx.here) [] s w)
  (hsound : ∀ e ∈ a.operand?, e.Sound A.interp o A.names (t.frames ctx.here))
  (hclean : a.problems ctx t = []) (loc : Location)

include hI hc hw hsound hclean

-- The operators that change a target by an amount add it.
theorem value_amount (hstep : ∀ e, a ≠ .set e ∧ a ≠ .join e) :
    ∃ v, ((a.amount ctx t loc).emit o).value A.interp A.arguments w = some v ∧
      ∀ current, A.assigned s current a = A.interp.binary .add current v := by
  cases a with
  | set e => exact absurd rfl (hstep e).1
  | join e => exact absurd rfl (hstep e).2
  | add e => exact ⟨_, value_operand hI hc hw e (hsound e rfl) hclean, fun _ => rfl⟩
  | subtract e =>
      have hv := value_operand hI hc hw e (hsound e rfl) hclean
      exact ⟨_, UnaryOp.minus.value_apply hI o loc hv, fun _ => rfl⟩
  | increment => exact ⟨_, rfl, fun _ => rfl⟩
  | decrement => exact ⟨_, rfl, fun _ => rfl⟩

theorem value_result {current : Operand} {v : V}
    (hcurrent : (current.emit o).value A.interp A.arguments w = some v) :
    ((a.result ctx t loc current).emit o).value A.interp A.arguments w =
      some (A.assigned s v a) := by
  have hstep (hstep : ∀ e, a ≠ .set e ∧ a ≠ .join e) :
      ((Operand.binary .add current (a.amount ctx t loc) loc).emit o).value A.interp A.arguments w =
        some (A.assigned s v a) := by
    obtain ⟨u, hu, hassigned⟩ := value_amount hI hc hw hsound hclean loc hstep
    rw [hassigned]
    exact BinaryOp.add.value_apply hI o loc hcurrent hu fun _ l r _ _ =>
      hI.fold_binary .add l r (by decide) (by decide)
  cases a with
  | set e => exact value_operand hI hc hw e (hsound e rfl) hclean
  | join e =>
      exact BinaryOp.concat.value_apply hI o loc hcurrent
        (value_operand hI hc hw e (hsound e rfl) hclean) fun _ l r _ _ =>
          hI.fold_binary .concat l r (by decide) (by decide)
  | _ => exact hstep (by simp)

-- A local is assigned where it is on the stack.
theorem run_store {l : Local} {v : V} (hfind : s.frames.find? x = some (l, [v])) :
    Block.runAll A.interp A.arguments n (Command.emitAll o
      [.store ⟨t, ctx.here, x, 0⟩ (a.result ctx t loc (.cell ⟨t, ctx.here, x, 0⟩))]) w =
      .next (w.setList o.stackList (A.lists o.stackList ++
        (s.frames.update x [A.assigned s v a]).stack)) := by
  obtain ⟨before, after, hsplit, hdepth, hfit, hupdate⟩ := hw.split hfind
  have hresult := value_result hI hc hw hsound hclean loc (value_cell hI hw hfind)
  have hnew := hupdate [A.assigned s v a]
  rw [List.append_nil] at hnew
  rw [List.length_nil] at hdepth hresult
  rw [Command.emitAll, Command.emit, Command.emitAll, List.append_nil, Block.runAll_singleton,
    hdepth, Stack.run_write_slot hI.toFindsSlots hsplit (by omega) hresult, hnew]

omit hI hc hsound hclean in
theorem Matches.update {l : Local} {v : V} (hfind : s.frames.find? x = some (l, [v])) (u : V) :
    A.Matches o.stackList (t.frames ctx.here) [] { s with frames := s.frames.update x [u] }
      (w.setList o.stackList (A.lists o.stackList ++ (s.frames.update x [u]).stack)) where
  globals := hw.globals
  others l hl := by rw [w.lists_setList_of_ne hl, hw.others l hl]
  stack := by rw [w.lists_setList, List.append_nil]
  locals := by rw [Frames.locals_update, hw.locals]
  filled := hw.filled.update hfind rfl
  fits := hw.fits

-- A global is set by its name, or changed by an amount.
theorem run_assign_global {v : GlobalVariable}
    (hresolve : ctx.resolve? t x = some (.globalVariable v)) :
    Block.runAll A.interp A.arguments n (Command.emitAll o (a.code ctx t loc x)) w =
      .next (w.setVariable v.name (A.assigned s (s.globals v.name) a)) := by
  have hcurrent : ((Operand.global v.name).emit o).value A.interp A.arguments w =
      some (s.globals v.name) := by
    simp [Operand.emit, Param.value, Block.value, Param.text, hw.globals]
  have hresult := value_result hI hc hw hsound hclean loc hcurrent
  have hset : Block.runAll A.interp A.arguments n
      (Command.emitAll o [.setVariable v.name (a.result ctx t loc (.global v.name))]) w =
        .next (w.setVariable v.name (A.assigned s (s.globals v.name) a)) := by
    simp [Command.emitAll, Command.emit, Block.run, Param.text, hresult, Outcome.given]
  have hchange (hstep : ∀ e, a ≠ .set e ∧ a ≠ .join e) : Block.runAll A.interp A.arguments n
      (Command.emitAll o [.changeVariable v.name (a.amount ctx t loc)]) w =
        .next (w.setVariable v.name (A.assigned s (s.globals v.name) a)) := by
    obtain ⟨u, hu, hassigned⟩ := value_amount hI hc hw hsound hclean loc hstep
    simp [Command.emitAll, Command.emit, Block.run, Param.text, hu, Outcome.given,
      hassigned, hw.globals]
  rw [Assignment.code, hresolve]
  cases a with
  | set e => exact hset
  | join e => exact hset
  | _ => exact hchange (by simp)

omit hclean in
theorem follows_assign (hclean : a.allProblems ctx t loc x = []) :
    A.Follows o (t.frames ctx.here) (.next (A.assign x a s))
      (Block.runAll A.interp A.arguments n (Command.emitAll o (a.code ctx t loc x)) w) := by
  rw [Assignment.allProblems] at hclean
  rw [Activation.assign]
  cases hfind : s.frames.find? x with
  | some p =>
      obtain ⟨l, vs⟩ := p
      have hresolve := resolve?_of_find? hc hw hfind
      rw [hresolve] at hclean
      rw [Assignment.code, hresolve]
      obtain v | r := l
      · have hv : v.slots = 1 := by
          by_contra hv
          simp [Local.binding, hv] at hclean
        obtain ⟨u, rfl⟩ := hw.exists_value hfind hv
        simp only [Local.binding, hv, if_true, List.append_eq_nil_iff] at hclean ⊢
        rw [run_store hI hc hw hsound hclean.2 loc hfind]
        exact .next (hw.update hfind _)
      · simp [Local.binding] at hclean
  | none =>
      have hresolve := resolve?_of_not_find? hc hw hfind
      rw [hresolve] at hclean
      cases hb : A.names x with
      | none => simp [hb] at hclean
      | some b =>
          cases b with
          | globalVariable v =>
              simp only [hb, List.append_eq_nil_iff] at hclean
              rw [run_assign_global hI hc hw hsound hclean.2 loc (hresolve.trans hb)]
              exact .next (hw.setVariable v.name _)
          | localVariable v => exact absurd hb (names_ne_local hc (.variable v))
          | _ => simp [hb] at hclean

end Assign

section Return

variable {V : Type} {A : Activation V} {o : Options} {ctx : Context} {t : ScopeTree} {s : Store V}
  {w : Memory V} {n : Nat} {value : Option Expr} (hI : A.interp.Lawful) (hc : A.Compiles o ctx t)
  (hw : A.Matches o.stackList (t.frames ctx.here) [] s w)
  (hsound : ∀ e ∈ value, e.Sound A.interp o A.names (t.frames ctx.here))
  (hclean : resultProblems ctx t value = [])

include hI hc hw hsound hclean

theorem run_storeResult : ∃ w', Block.runAll A.interp A.arguments n
      (Command.emitAll o (SpriteCompiler.storeResult o ctx t value)) w = .next w' ∧
    A.Matches o.stackList (t.frames ctx.here) [] (A.storeResult value s) w' := by
  obtain ⟨m, hm, hresult⟩ := Option.map_eq_some_iff.mp hc.result
  cases value with
  | none => exact ⟨w, rfl, hw⟩
  | some e =>
      simp only [resultProblems, hm] at hclean
      simp only [SpriteCompiler.storeResult, hm]
      cases htype : m.returnType with
      | none => simp [htype] at hclean
      | some type =>
          simp only [htype, List.append_eq_nil_iff] at hclean
          have hv := value_operand hI hc hw e (hsound e rfl) hclean.2
          rw [List.length_nil] at hv
          refine ⟨_, ?_, hw.setVariable A.result (A.value s [] e)⟩
          simp [Command.emitAll, Command.emit, Block.run, Param.text, hv,
            Outcome.given, hresult]

-- A return stores the result and releases all locals before the script is stopped.
theorem follows_return (F : List (List Local)) :
    A.Follows o F (.done (A.storeResult value s))
      (Block.runAll A.interp A.arguments n
        (Command.emitAll o (SpriteCompiler.storeResult o ctx t value ++
          ((t.lineage ctx.here).flatMap t.releases ++ [.stop]))) w) := by
  obtain ⟨w', hrun, hw'⟩ := run_storeResult hI hc hw hsound hclean
  have hstack := hw'.stack
  rw [List.append_nil] at hstack
  have hlen := Frames.length_stack hw'.filled
  have hfits := hw'.fits
  rw [hw'.locals] at hlen
  have hunwind := t.run_unwind hI A.arguments n o (t.lineage ctx.here) hw'.locals hw'.filled
    (by omega) hstack
  rw [Command.emitAll_append, Command.emitAll_append, Block.runAll_append, hrun]
  simp only [Outcome.bind, Block.runAll_append, hunwind]
  simp only [Command.emitAll, Command.emit, List.append_nil, Block.runAll_singleton,
    Block.run]
  -- The stack is as it was, and no other list was touched.
  refine .done ⟨hw'.globals, funext fun l => ?_⟩
  by_cases hl : l = o.stackList
  · rw [hl, Memory.lists_setList]
  · rw [w'.lists_setList_of_ne hl, hw'.others l hl]

end Return

end Activation

end SpriteCompiler
