import SpriteCompiler.Proofs.Meaning.Declaration
import SpriteCompiler.Proofs.Program.WellFormed

namespace SpriteCompiler

-- The locals in scope, innermost scope first.
def Context.frames (ctx : Context) (t : ScopeTree) : List (List Local) :=
  ctx.scope.elim [] t.frames

-- Why what a name stands for cannot be assigned to.
def DiagnosticKind.ofTarget : Option Binding → DiagnosticKind
  | none => .notDefined
  | some (.constant _) | some (.parameter _) => .valueIsReadonly
  | some _ => .improperUsage

section Machine

variable {V : Type}

-- The new value of a target, from the values of expressions. Subtracting adds the opposite.
def Assignment.newValue? (I : Interpretation V) (value : Expr → Option V) (current : V) :
    Assignment → Option V
  | .set e => value e
  | .add e => (value e).map (I.binary .add current)
  | .subtract e =>
    (value e).map fun v => I.binary .add current (I.binary .subtract (I.literal (.number 0.0)) v)
  | .join e => (value e).map (I.binary .concat current)
  | .increment => some (I.binary .add current (I.literal (.number 1.0)))
  | .decrement => some (I.binary .add current (I.literal (.number (-1.0))))

-- The locals `F` are the ones in scope, and the list holds their slots behind other items.
structure Memory.LaidOut (w : Memory V) (list : String) (locals : List (List Local))
    (base : List V) (F : Frames V) : Prop where
  stack : w.lists list = base ++ F.stack
  locals_eq : F.locals = locals
  filled : F.Filled

-- The value of a variable is changed by `f`, and nothing else is changed.
inductive Binding.Updates (list : String) (base : List V) (F : Frames V) (f : V → V)
    (w : Memory V) : Binding → Memory V → Prop where
  | slot {v : LocalVariable} {current : V} (h : F.find? v.name = some (.variable v, [current])) :
      Updates list base F f w (.localVariable v)
        (w.setList list (base ++ (F.update v.name [f current]).stack))
  | global (v : GlobalVariable) :
      Updates list base F f w (.globalVariable v)
        (w.setVariable v.name (f (w.globals v.name)))

end Machine

section Values

variable {V : Type} {I : Interpretation V} {arguments : String → V} {w : Memory V} {o : Options}
  {p q : Param}

theorem Stack.exists_slotIndex (list : String) (depth : Nat) :
    ∃ i, (slotIndex list depth).value I arguments w = some i := by
  unfold slotIndex
  by_cases hdepth : depth = 0
  · rw [if_pos hdepth]
    exact ⟨_, rfl⟩
  · rw [if_neg hdepth]
    exact ⟨_, value_behindEnd depth⟩

-- Without placeholders, everything has a value.
theorem Operand.exists_value (p : Operand) (h : (p.emit o).Complete) :
    ∃ v, (p.emit o).value I arguments w = some v := by
  induction p with
  | literal value => exact ⟨_, rfl⟩
  | empty => exact absurd rfl h.filled
  | global x => exact ⟨_, rfl⟩
  | contents l => exact ⟨_, rfl⟩
  | param x kind => exact ⟨_, rfl⟩
  | cell site =>
      obtain ⟨i, hi⟩ := Stack.exists_slotIndex o.stackList site.depth
      exact ⟨_, Stack.value_read hi⟩
  | item l index ih =>
      obtain ⟨i, hi⟩ := ih (h.of_mem (.head _))
      exact ⟨_, Stack.value_read hi⟩
  | element site size index ih =>
      have hindex := (h.of_mem (.head _)).of_mem (.tail _ (.head _))
      obtain ⟨i, hi⟩ := ih hindex
      exact ⟨_, Stack.value_read (Stack.value_itemIndex size hi)⟩
  | unary op p loc ih =>
      have hsteady : Param.Steady I arguments w o.stackList 0 _ := h.steady
      obtain ⟨v, hv, -⟩ := op.sameValue_apply o loc rfl hsteady fun hs => by
        obtain ⟨v, hv⟩ := ih hs.complete
        exact ⟨v, hv, hv⟩
      exact ⟨v, hv⟩
  | binary op p q loc ihp ihq =>
      have hsame {p : Param} (hp : ∃ v, p.value I arguments w = some v) :
          p.SameValue I arguments w w p := hp.imp fun _ hv => ⟨hv, hv⟩
      have hsteady : Param.Steady I arguments w o.stackList 0 _ := h.steady
      obtain ⟨v, hv, -⟩ := op.sameValue_apply o loc rfl rfl hsteady
        (fun hs => hsame (ihp hs.complete)) (fun hs => hsame (ihq hs.complete))
      exact ⟨v, hv⟩

-- A negated value is subtracted from zero, also where that is done at compile time.
theorem UnaryOp.value_minus (hminus : ∀ l r, I.Agrees .subtract l r) (o : Options) (loc : Location)
    (p : Param) : (UnaryOp.minus.apply o p loc).value I arguments w =
      (p.value I arguments w).map (I.binary .subtract (I.literal (.number 0.0))) := by
  rw [UnaryOp.apply]
  cases hfold : UnaryOp.minus.foldParam? o p loc with
  | none => exact Param.value_binary_eq rfl _ _
  | some r =>
      simp only [UnaryOp.foldParam?, Option.ite_none_right_eq_some, Option.bind_eq_some_iff,
        Option.map_eq_some_iff] at hfold
      obtain ⟨_, l, hl, l', hl', rfl⟩ := hfold
      have hsubtract : BinaryOp.subtract.fold (.number 0.0) l loc = .ok l' := by
        cases l with
        | number x => exact fold_of_toOption hl'
        | _ => cases hl'
      rw [Param.value_of_literal? hl, Option.map_some, hminus _ _ loc l' hsubtract]
      rfl

-- With an operand that is no literal, nothing is done at compile time.
theorem BinaryOp.value_apply_of_no_literal {op : BinaryOp} (hop : op.opcode.operator? = some op)
    (o : Options) (loc : Location) {u : V} (hp : p.value I arguments w = some u)
    (hliteral : p.literal? = none) : (op.apply o p q loc).value I arguments w =
      (q.value I arguments w).map (I.binary op u) := by
  have hdirect : op.isOpposite = false := by
    cases op with
    | notEqual => cases hop
    | lessEqual => cases hop
    | greaterEqual => cases hop
    | _ => rfl
  have hblock : op.apply o p q loc = .block (.mk op.opcode [p, q]) := by
    simp only [BinaryOp.apply, BinaryOp.foldParams?, hliteral, Option.bind_none, ite_self,
      Option.getD_none, BinaryOp.block, hdirect, Bool.false_eq_true, if_false]
    rfl
  rw [hblock, Param.value_binary_eq hop, hp, Option.bind_some]

end Values

namespace Assignment

variable {V : Type} {I : Interpretation V} {a : Assignment} {value : Expr → Option V}

-- If the operand has a value, one and the same function gives the new value of any target.
theorem exists_newValue (h : ∀ e ∈ a.operand?, ∃ v, value e = some v) :
    ∃ f : V → V, ∀ current, a.newValue? I value current = some (f current) := by
  cases a with
  | increment => exact ⟨_, fun _ => rfl⟩
  | decrement => exact ⟨_, fun _ => rfl⟩
  | set e =>
      obtain ⟨v, hv⟩ := h e rfl
      exact ⟨fun _ => v, fun _ => hv⟩
  | _ e =>
      obtain ⟨v, hv⟩ := h e rfl
      exact ⟨_, fun current => by rw [newValue?, hv, Option.map_some]⟩

variable {arguments : String → V} {w : Memory V} {o : Options} {ctx : Context} {t : ScopeTree}
  (hminus : ∀ l r, I.Agrees .subtract l r)
  (hvalue : ∀ e, value e = ((e.operand ctx t 0).emit o).value I arguments w) (loc : Location)

include hminus hvalue

-- The operators that change a target by an amount add it.
theorem newValue?_eq_amount (hstep : ∀ e, a ≠ .set e ∧ a ≠ .join e) (current : V) :
    a.newValue? I value current =
      (((a.amount ctx t loc).emit o).value I arguments w).map (I.binary .add current) := by
  cases a with
  | set e => exact absurd rfl (hstep e).1
  | join e => exact absurd rfl (hstep e).2
  | add e =>
      rw [newValue?, hvalue]
      rfl
  | subtract e =>
      rw [newValue?, hvalue, amount, Operand.emit, UnaryOp.value_minus hminus, Option.map_map]
      rfl
  | increment => rfl
  | decrement => rfl

theorem value_result {current : Operand} {v : V}
    (hv : (current.emit o).value I arguments w = some v)
    (hliteral : (current.emit o).literal? = none) :
    ((a.result ctx t loc current).emit o).value I arguments w = a.newValue? I value v := by
  cases a with
  | set e => exact (hvalue e).symm
  | join e =>
      rw [newValue?, hvalue]
      exact BinaryOp.value_apply_of_no_literal rfl o loc hv hliteral
  | _ =>
      rw [newValue?_eq_amount hminus hvalue loc (by simp)]
      exact BinaryOp.value_apply_of_no_literal rfl o loc hv hliteral

-- A global is set by its name, or changed by an amount.
theorem runAll_global (n : Nat) {x : String} {v : GlobalVariable}
    (hx : ctx.resolve? t x = some (.globalVariable v)) :
    Block.runAll I arguments n (Command.emitAll o (a.code ctx t loc x)) w =
      Outcome.given (a.newValue? I value (w.globals v.name))
        fun u => .next (w.setVariable v.name u) := by
  have hset : Block.runAll I arguments n
      (Command.emitAll o [.setVariable v.name (a.result ctx t loc (.global v.name))]) w =
        Outcome.given (a.newValue? I value (w.globals v.name))
          fun u => .next (w.setVariable v.name u) := by
    have hv : ((Operand.global v.name).emit o).value I arguments w = some (w.globals v.name) := rfl
    rw [← value_result hminus hvalue loc hv rfl]
    exact Block.runAll_singleton _ w
  have hchange (hstep : ∀ e, a ≠ .set e ∧ a ≠ .join e) : Block.runAll I arguments n
      (Command.emitAll o [.changeVariable v.name (a.amount ctx t loc)]) w =
        Outcome.given (a.newValue? I value (w.globals v.name))
          fun u => .next (w.setVariable v.name u) := by
    rw [newValue?_eq_amount hminus hvalue loc hstep]
    refine (Block.runAll_singleton _ w).trans ?_
    change Outcome.given _ _ = _
    cases ((a.amount ctx t loc).emit o).value I arguments w with
    | none => rfl
    | some u => rfl
  rw [code, hx]
  cases a with
  | set e => exact hset
  | join e => exact hset
  | _ => exact hchange (by simp)

-- A local is changed where it is on the stack.
theorem runAll_local (hI : I.FindsSlots) (n : Nat) {x : String} {base : List V} {F : Frames V}
    (hfits : Local.slotTotal (t.frames ctx.here) < 2 ^ 32)
    (hw : w.LaidOut o.stackList (t.frames ctx.here) base F) {v : LocalVariable} {current u : V}
    (hx : ctx.resolve? t x = some (.localVariable v)) (hv : v.slots = 1)
    (hfind : F.find? x = some (.variable v, [current]))
    (hu : a.newValue? I value current = some u) :
    Block.runAll I arguments n (Command.emitAll o (a.code ctx t loc x)) w =
      .next (w.setList o.stackList (base ++ (F.update x [u]).stack)) := by
  obtain ⟨before, after, hsplit, hdepth, hle, hupdate⟩ := Frames.list_split base [] hw.filled hfind
  rw [hw.locals_eq, ← ScopeTree.depth?_eq] at hdepth
  rw [hw.locals_eq] at hle
  simp only [List.append_nil, List.length_nil, Nat.add_zero] at hsplit hdepth hle hupdate
  rw [← hw.stack] at hsplit
  obtain ⟨depth, hdepth, rfl⟩ := Option.map_eq_some_iff.mp hdepth
  have hsite : Site.depth ⟨t, ctx.here, x, 0⟩ = after.length := by
    simp only [Site.depth, hdepth, Option.getD_some, Nat.add_zero]
  have hcell : ((Operand.cell ⟨t, ctx.here, x, 0⟩).emit o).value I arguments w = some current := by
    rw [Operand.emit, hsite]
    exact Stack.value_slot hI hsplit (by omega)
  have hresult := (value_result hminus hvalue loc hcell rfl).trans hu
  simp only [code, hx, hv, if_true, Command.emitAll, Command.emit, List.append_nil, hsite]
  rw [Block.runAll_singleton, Stack.run_write_slot hI hsplit (by omega) hresult, hupdate]

end Assignment

-- A local variable of one slot has one value.
theorem Memory.LaidOut.exists_find? {V : Type} {w : Memory V} {list : String} {ctx : Context}
    {t : ScopeTree} {base : List V} {F : Frames V} {x : String} {v : LocalVariable}
    (hw : w.LaidOut list (t.frames ctx.here) base F) (hx : t.search? ctx.here x = some (.variable v))
    (hv : v.slots = 1) : ∃ current, F.find? x = some (.variable v, [current]) := by
  have hfst := F.find?_fst x
  rw [hw.locals_eq, ← ScopeTree.search?_eq, hx, Option.map_eq_some_iff] at hfst
  obtain ⟨⟨l, vs⟩, hfind, rfl⟩ := hfst
  have hlen : vs.length = 1 := by
    rw [hw.filled.length_eq hfind, Local.slots, hv]
    rfl
  obtain ⟨current, rfl⟩ := List.length_eq_one_iff.mp hlen
  exact ⟨current, hfind⟩

namespace Assignment

variable {ctx : Context} {t : ScopeTree} {x : String} {b : Binding}

theorem code_of_variable (hb : ctx.resolve? t x = some b) (hvariable : b.IsVariable) (o : Options)
    (a : Assignment) (loc : Location) :
    (∃ block, Command.emitAll o (a.code ctx t loc x) = [block]) ∧
      a.allProblems ctx t loc x = a.op.mismatches b.type loc ++ a.problems ctx t := by
  unfold code allProblems
  rw [hb]
  cases hvariable with
  | localVariable v hv =>
      simp only [hv, if_true]
      exact ⟨⟨_, rfl⟩, rfl⟩
  | globalVariable v =>
      refine ⟨?_, rfl⟩
      cases a <;> exact ⟨_, rfl⟩

-- The new value is stored in the target, and all else is left as it is.
theorem runAll_variable (hr : ctx.Within t) (hb : ctx.resolve? t x = some b)
    (hvariable : b.IsVariable) {o : Options} (a : Assignment) (loc : Location) {V : Type}
    {I : Interpretation V} (hI : I.FindsSlots) (hminus : ∀ l r, I.Agrees .subtract l r)
    (hfits : Local.slotTotal (ctx.frames t) < 2 ^ 32)
    {arguments : String → V} {w : Memory V} {base : List V} {F : Frames V}
    (hw : w.LaidOut o.stackList (ctx.frames t) base F) {value : Expr → Option V}
    (hvalue : ∀ e, value e = ((e.operand ctx t 0).emit o).value I arguments w) {f : V → V}
    (hf : ∀ current, a.newValue? I value current = some (f current)) (n : Nat) :
    ∃ w', b.Updates o.stackList base F f w w' ∧
      Block.runAll I arguments n (Command.emitAll o (a.code ctx t loc x)) w = .next w' := by
  have hname := Context.name_of_resolve? hb
  cases hvariable with
  | globalVariable v =>
      refine ⟨_, .global v, ?_⟩
      rw [runAll_global hminus hvalue loc n hb, hf]
      rfl
  | localVariable v hv =>
      have hin := hr.inScope (l := .variable v) hb
      have hsearch := Context.search?_of_resolve? (l := .variable v) hin.inside hb
      rw [Context.frames, hin.inside, Option.elim_some] at hw hfits
      obtain ⟨current, hfind⟩ := hw.exists_find? hsearch hv
      have hrun := runAll_local hminus hvalue loc hI n hfits hw hb hv hfind (hf current)
      obtain rfl : v.name = x := hname
      exact ⟨_, .slot hfind, hrun⟩

theorem refused_of_not_variable (h : ∀ b, ctx.resolve? t x = some b → ¬b.IsVariable)
    (a : Assignment) (loc : Location) :
    a.code ctx t loc x = [] ∧ ∃ d, a.allProblems ctx t loc x = [d] ∧ d.loc = loc ∧
      d.kind = .ofTarget (ctx.resolve? t x) := by
  unfold code allProblems
  cases hb : ctx.resolve? t x with
  | none => exact ⟨rfl, _, rfl, rfl, rfl⟩
  | some b =>
      cases b with
      | localVariable v =>
          have hv : v.slots ≠ 1 := fun hv => h _ hb (.localVariable v hv)
          simp only [hv, if_false, true_and]
          exact ⟨_, rfl, rfl, rfl⟩
      | globalVariable v => exact absurd (.globalVariable v) (h _ hb)
      | _ => exact ⟨rfl, _, rfl, rfl, rfl⟩

end Assignment

-- What is assigned does not matter where the target is no variable.
theorem Lower.assign_congr {ctx : Context} {s : Session} {x : String} (hr : ctx.Within s.scopes)
    (h : ∀ b, ctx.resolve? s.scopes x = some b → ¬b.IsVariable) (o : Options) (a a' : Assignment)
    (loc : Location) : assign o ctx x a loc s = assign o ctx x a' loc s := by
  have hresolve : Lower.resolve? ctx x s = (.ok (ctx.resolve? s.scopes x), s) :=
    ask_eq (hr.resolve_eq x)
  rw [assign, assign, run_bind hresolve, run_bind hresolve]
  cases hb : ctx.resolve? s.scopes x with
  | none => rfl
  | some b =>
      cases b with
      | localVariable v =>
          have hv : v.slots ≠ 1 := fun hv => h _ hb (.localVariable v hv)
          simp only [hv, if_false]
      | globalVariable v => exact absurd (.globalVariable v) (h _ hb)
      | _ => rfl

-- What can be assigned to becomes one block, whether or not the operator goes with its type, and the
-- block changes the target as the operator says. All else is refused with one problem.
theorem assign_all_or_nothing (o : Options) {ctx : Context} {s : Session}
    (hr : ctx.Within s.scopes) (hs : s.Idle) (x : String) (a : Assignment) (loc : Location) :
    (∀ b, ctx.resolve s.scopes x = .ok (some b) → b.IsVariable →
      ∃ block s', Lower.stmt o ctx (.assign x a loc) s = (.ok [block], s') ∧
        s'.core = { s.core with diagnostics := s.report.diagnostics ++
          (a.op.mismatches b.type loc ++ a.problems ctx s.scopes) } ∧
        ((∀ e ∈ a.operand?, (s.compiled o ctx e).Complete) →
          Local.slotTotal (ctx.frames s.scopes) < 2 ^ 32 →
          ∀ {V : Type} {I : Interpretation V}, I.FindsSlots → (∀ l r, I.Agrees .subtract l r) →
          ∀ arguments n w base F, w.LaidOut o.stackList (ctx.frames s.scopes) base F →
            ∃ f w', (∀ current, a.newValue? I
                (fun e => (s.compiled o ctx e).value I arguments w) current = some (f current)) ∧
              b.Updates o.stackList base F f w w' ∧ block.run I arguments n w = .next w')) ∧
    (∀ found, ctx.resolve s.scopes x = .ok found → (∀ b ∈ found, ¬b.IsVariable) →
      ∃ d s', d.loc = loc ∧ d.kind = .ofTarget found ∧
        s'.core = { s.core with diagnostics := s.report.diagnostics ++ [d] } ∧
        ∀ a', Lower.stmt o ctx (.assign x a' loc) s = (.ok [], s')) := by
  have hassign := Lower.gives_assign (c := s.core) (x := x) o hr hs.nothing_pending a loc
  rw [Core.reported_of_not_muted (show s.core.muted = false from hs.not_muted)] at hassign
  obtain ⟨s', hrun, hcore⟩ := hassign s rfl
  have hrun : Lower.stmt o ctx (.assign x a loc) s =
      (.ok (Command.emitAll o (a.code ctx s.scopes loc x)), s') := hrun
  constructor
  · intro b hb hvariable
    have hb := Context.resolve?_of_resolve hb
    obtain ⟨⟨block, hblock⟩, hproblems⟩ := a.code_of_variable hb hvariable o loc
    refine ⟨block, s', by rw [hrun, hblock], by rw [hcore, ← hproblems]; rfl, ?_⟩
    intro hcomplete hfits V I hI hminus arguments n w base F hw
    have hvalue (e : Expr) : (s.compiled o ctx e).value I arguments w =
        ((e.operand ctx s.scopes 0).emit o).value I arguments w := by
      rw [Session.compiled_eq hr hs.nothing_pending]
    have hoperand : ∀ e ∈ a.operand?, ∃ v, (s.compiled o ctx e).value I arguments w = some v := by
      intro e he
      have hfilled := hcomplete e he
      rw [Session.compiled_eq hr hs.nothing_pending] at hfilled
      rw [hvalue]
      exact Operand.exists_value _ hfilled
    obtain ⟨f, hf⟩ := Assignment.exists_newValue (I := I) hoperand
    obtain ⟨w', hupdates, hend⟩ :=
      a.runAll_variable hr hb hvariable loc hI hminus hfits hw hvalue hf n
    rw [hblock, Block.runAll_singleton] at hend
    exact ⟨f, w', hf, hupdates, hend⟩
  · intro found hfound h
    obtain rfl := Context.resolve?_of_resolve hfound
    obtain ⟨hcode, d, hproblems, hloc, hkind⟩ := a.refused_of_not_variable h loc
    rw [hcode] at hrun
    refine ⟨d, s', hloc, hkind, by rw [hcore, ← hproblems]; rfl, fun a' => ?_⟩
    exact (Lower.assign_congr hr h o a' a loc).trans hrun

-- A text in the scope of a method, and a number in a scope inside it.

def Session.twoScopes : Session :=
  let at0 : Location := ⟨0, ⟨0, 0⟩⟩
  let outer := Context.sample.withScope 0
  let root := (ScopeTree.createRoot { method := some .sample }).2
  let opened := (Local.plan outer root (.variable ⟨"t", .text, none, 1, at0⟩)).scopes.child 0
  { scopes := (Local.plan (outer.withScope 1) opened
      (.variable ⟨"u", .number, none, 1, at0⟩)).scopes }

def Frames.twoScopes : Frames Datum :=
  let at0 : Location := ⟨0, ⟨0, 0⟩⟩
  [[(.variable ⟨"u", .number, none, 1, at0⟩, [.whole 7])],
    [(.variable ⟨"t", .text, none, 1, at0⟩, [.known (.number 5.0)])]]

def Memory.twoScopes : Memory Datum where
  globals _ := .blank
  lists _ := [.whole 9, .known (.number 5.0), .whole 7]

theorem Memory.laidOut_twoScopes : Memory.twoScopes.LaidOut "stack"
    ((Context.sample.withScope 1).frames Session.twoScopes.scopes) [.whole 9] .twoScopes where
  stack := rfl
  locals_eq := rfl
  filled := by
    intro f hf p hp
    rcases hf with _ | ⟨_, _ | ⟨_, ⟨⟩⟩⟩
    · obtain rfl := List.mem_singleton.mp hp
      rfl
    · obtain rfl := List.mem_singleton.mp hp
      rfl

-- Subtracting from the text is reported and done all the same, and a parameter is not changed.
theorem assign_all_or_nothing_twoScopes :
    Interpretation.exact.FindsSlots ∧ (∀ l r, Interpretation.exact.Agrees .subtract l r) ∧
    (Context.sample.withScope 1).Within Session.twoScopes.scopes ∧ Session.twoScopes.Idle ∧
    Local.slotTotal ((Context.sample.withScope 1).frames Session.twoScopes.scopes) < 2 ^ 32 ∧
    (∃ block s', Lower.stmt {} (Context.sample.withScope 1)
        (.assign "t" (.subtract (.literal (.number 2.0) ⟨0, ⟨0, 0⟩⟩)) ⟨0, ⟨0, 0⟩⟩) .twoScopes =
          (.ok [block], s') ∧
      s'.report.diagnostics.map (·.kind) = [.typeMismatch] ∧
      ∀ arguments n, block.run .exact arguments n .twoScopes =
        .next (Memory.twoScopes.setList "stack" [.whole 9, .known (.number 3.0), .whole 7])) ∧
    ∃ s', Lower.stmt {} (Context.sample.withScope 1) (.assign "n" .increment ⟨0, ⟨0, 0⟩⟩)
        .twoScopes = (.ok [], s') ∧
      s'.report.diagnostics.map (·.kind) = [.valueIsReadonly] := by
  have hslots := Interpretation.findsSlots_exact
  have hminus (l r : Literal) := Interpretation.lawful_exact.fold_binary .subtract l r
    (by decide) (by decide)
  have hwithin : (Context.sample.withScope 1).Within Session.twoScopes.scopes := by
    intro id hid
    obtain rfl := Option.some.inj hid
    decide
  have hidle : Session.twoScopes.Idle := ⟨rfl, rfl⟩
  have hfits : Local.slotTotal ((Context.sample.withScope 1).frames Session.twoScopes.scopes) <
      2 ^ 32 := by
    change 2 < 2 ^ 32
    omega
  refine ⟨hslots, hminus, hwithin, hidle, hfits, ?_, ?_⟩
  · obtain ⟨hchanged, -⟩ := assign_all_or_nothing {} hwithin hidle "t"
      (.subtract (.literal (.number 2.0) ⟨0, ⟨0, 0⟩⟩)) ⟨0, ⟨0, 0⟩⟩
    obtain ⟨block, s', hrun, hcore, hmeans⟩ := hchanged _ rfl (.localVariable _ rfl)
    refine ⟨block, s', hrun, congrArg (fun c => c.diagnostics.map (·.kind)) hcore, ?_⟩
    intro arguments n
    have hcomplete : ∀ e ∈ some (Expr.literal (.number 2.0) ⟨0, ⟨0, 0⟩⟩),
        (Session.twoScopes.compiled {} (Context.sample.withScope 1) e).Complete := by
      rintro e ⟨⟩
      exact ⟨nofun, nofun⟩
    obtain ⟨f, w', hf, hupdates, hend⟩ := hmeans hcomplete hfits hslots hminus arguments n
      .twoScopes [.whole 9] .twoScopes Memory.laidOut_twoScopes
    cases hupdates with
    | slot hfind =>
        obtain rfl := List.singleton_inj.mp (congrArg Prod.snd (Option.some.inj hfind))
        have hnew : f (.known (.number 5.0)) = .known (.number 3.0) :=
          (Option.some.inj (hf (.known (.number 5.0)))).symm
        rw [hend, hnew]
        rfl
  · obtain ⟨-, hrefused⟩ := assign_all_or_nothing {} hwithin hidle "n" .increment ⟨0, ⟨0, 0⟩⟩
    obtain ⟨d, s', -, hkind, hcore, hrun⟩ := hrefused _ rfl fun b hb hvariable => by
      obtain rfl := Option.some.inj hb
      cases hvariable
    refine ⟨s', hrun _, ?_⟩
    have hreported : s'.report.diagnostics = [d] := congrArg Core.diagnostics hcore
    rw [hreported, List.map_singleton, hkind]
    rfl

end SpriteCompiler
