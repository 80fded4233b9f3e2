import SpriteCompiler.Proofs.Block.Reference
import SpriteCompiler.Proofs.Lowering.Realize
import SpriteCompiler.Proofs.Meaning.Datum
import SpriteCompiler.Proofs.Meaning.Statement

namespace SpriteCompiler

def Expr.names : Expr → List String
  | .literal _ _ => []
  | .lookup x _ => [x]
  | .item x index _ => x :: index.names
  | .unary _ operand _ => operand.names
  | .binary _ left right _ => left.names ++ right.names

-- What an expression is compiled to. If it cannot be compiled this is a placeholder.
def Session.compiled (s : Session) (o : Options) (ctx : Context) (e : Expr) : Param :=
  (Lower.expr o ctx e s).1.toOption.getD .empty

-- There is no placeholder, at any depth.
structure Param.Complete (p : Param) : Prop where
  filled : p ≠ .empty
  parts_filled : ∀ b ∈ p.parts, Param.empty ∉ b.params

-- The declaration is not refused, it can be compiled, and what it reads by name is not the stack.
structure Local.Compilable (o : Options) (ctx : Context) (s : Session) (l : Local) : Prop where
  name_free : ∀ l' ∈ s.scopes.locals ctx.here, l'.name ≠ l.name
  complete : ∀ e ∈ l.initializers, (s.compiled o ctx e).Complete
  apart : ∀ e ∈ l.initializers, ∀ x ∈ e.names, ∀ g,
    ctx.resolve s.scopes x = .ok (some (.globalList g)) → g.name ≠ o.stackList

section Machine

variable {V : Type} (I : Interpretation V) (arguments : String → V) (w : Memory V)

-- No item of the list is read that would be one of the next `count` items if they were there.
def Param.Avoids (list : String) (count : Nat) (p : Param) : Prop :=
  ∀ index i number, .mk .itemOfList [index, .text list] ∈ p.parts →
    index.value I arguments w = some i → I.index i = .item number →
      number ≤ (w.lists list).length ∨ (w.lists list).length + count < number

structure Param.Steady (list : String) (count : Nat) (p : Param) : Prop where
  complete : p.Complete
  avoids : p.Avoids I arguments w list count

-- The blocks push the slots of a local and change nothing else. Each slot is filled with the value
-- that its expression has before the first block is run.
def Local.FilledBy (o : Options) (ctx : Context) (s : Session) (l : Local) (n : Nat)
    (blocks : List Block) : Prop :=
  ∃ vs, vs.length = l.slots ∧
    List.Forall₂ (fun e v => (s.compiled o ctx e).value I arguments w = some v) l.contents vs ∧
    Block.runAll I arguments n blocks w =
      .next (w.setList o.stackList (w.lists o.stackList ++ vs))

-- Two parameters have the same value, each in a memory of its own.
def Param.SameValue (w' : Memory V) (p p' : Param) : Prop :=
  ∃ v, p.value I arguments w = some v ∧ p'.value I arguments w' = some v

end Machine

theorem Session.compiled_eq {s : Session} {ctx : Context} (hr : ctx.Within s.scopes)
    (hp : s.pendingSlots = 0) (o : Options) (e : Expr) :
    s.compiled o ctx e = (e.operand ctx s.scopes 0).emit o := by
  obtain ⟨s', hrun, -⟩ := Lower.gives_expr (c := s.core) o hr e s rfl
  change _ = (_, s') at hrun
  rw [compiled, hrun]
  change (e.operand ctx s.scopes s.pendingSlots).emit o = _
  rw [hp]

section Values

variable {V : Type} {I : Interpretation V} {arguments : String → V} {w w' : Memory V}
  {list : String} {count : Nat} {p p' q q' : Param}

theorem Param.steady_literal (value : Literal) :
    (Param.literal value).Steady I arguments w list count :=
  ⟨⟨nofun, nofun⟩, nofun⟩

-- The parts of a parameter are parts of the block.
theorem Param.parts_subset {opcode : Opcode} {params : List Param} (hp : p ∈ params) :
    ∀ b ∈ p.parts, b ∈ (Param.block (.mk opcode params)).parts :=
  fun _ hb => .tail _ (Param.mem_partsAll.mpr ⟨p, hp, hb⟩)

theorem Param.Complete.of_mem {opcode : Opcode} {params : List Param}
    (h : (Param.block (.mk opcode params)).Complete) (hp : p ∈ params) : p.Complete := by
  refine ⟨?_, fun b hb => h.parts_filled b (Param.parts_subset hp b hb)⟩
  rintro rfl
  exact h.parts_filled _ (.head _) hp

theorem Param.Steady.of_mem {opcode : Opcode} {params : List Param}
    (h : (Param.block (.mk opcode params)).Steady I arguments w list count) (hp : p ∈ params) :
    p.Steady I arguments w list count :=
  ⟨h.complete.of_mem hp,
    fun index i number hpart => h.avoids index i number (Param.parts_subset hp _ hpart)⟩

-- With no more items, there are none to be avoided.
theorem Param.Complete.steady (h : p.Complete) : p.Steady I arguments w list 0 :=
  ⟨h, fun _ _ number _ _ _ => by omega⟩

theorem UnaryOp.steady_operand {op : UnaryOp}
    (h : (op.block p).Steady I arguments w list count) : p.Steady I arguments w list count := by
  cases op with
  | minus => exact h.of_mem (.tail _ (.head _))
  | not => exact h.of_mem (.head _)

theorem BinaryOp.steady_operands {op : BinaryOp}
    (h : (op.block p q).Steady I arguments w list count) :
    p.Steady I arguments w list count ∧ q.Steady I arguments w list count := by
  have hdirect : (Param.block (.mk op.opcode [p, q])).Steady I arguments w list count := by
    by_cases hop : op.isOpposite
    · simp only [BinaryOp.block, hop, if_true] at h
      exact h.of_mem (.head _)
    · simp only [BinaryOp.block, hop, Bool.false_eq_true, if_false] at h
      exact h
  exact ⟨hdirect.of_mem (.head _), hdirect.of_mem (.tail _ (.head _))⟩

-- An operator keeps values the same. At compile time it is applied to the same literals, and
-- nothing has to be known of the operands then.

theorem UnaryOp.sameValue_apply (op : UnaryOp) (o : Options) (loc : Location)
    (hliteral : p'.literal? = p.literal?)
    (hs : (op.apply o p loc).Steady I arguments w list count)
    (h : p.Steady I arguments w list count → p.SameValue I arguments w w' p') :
    (op.apply o p loc).SameValue I arguments w w' (op.apply o p' loc) := by
  have hfold : op.foldParam? o p' loc = op.foldParam? o p loc := by
    rw [foldParam?, foldParam?, hliteral]
  unfold UnaryOp.apply at hs ⊢
  rw [hfold]
  cases hr : op.foldParam? o p loc with
  | none =>
      rw [hr] at hs
      obtain ⟨v, hp, hp'⟩ := h (UnaryOp.steady_operand hs)
      cases op with
      | minus =>
          have hminus : Opcode.subtract.operator? = some .subtract := rfl
          exact ⟨_, Param.value_binary hminus rfl hp, Param.value_binary hminus rfl hp'⟩
      | not => exact ⟨_, Param.value_not hp, Param.value_not hp'⟩
  | some r =>
      simp only [UnaryOp.foldParam?, Option.ite_none_right_eq_some, Option.bind_eq_some_iff,
        Option.map_eq_some_iff] at hr
      obtain ⟨_, _, _, l, _, rfl⟩ := hr
      exact ⟨I.literal l, rfl, rfl⟩

theorem BinaryOp.sameValue_block (op : BinaryOp) (hp : p.SameValue I arguments w w' p')
    (hq : q.SameValue I arguments w w' q') :
    (op.block p q).SameValue I arguments w w' (op.block p' q') := by
  obtain ⟨u, hp, hp'⟩ := hp
  obtain ⟨v, hq, hq'⟩ := hq
  obtain ⟨direct, hdirect⟩ : ∃ direct, op.opcode.operator? = some direct := by
    cases op <;> exact ⟨_, rfl⟩
  have hvalue := Param.value_binary hdirect hp hq
  have hvalue' := Param.value_binary hdirect hp' hq'
  by_cases hop : op.isOpposite
  · simp only [BinaryOp.block, hop, if_true]
    exact ⟨_, Param.value_not hvalue, Param.value_not hvalue'⟩
  · simp only [BinaryOp.block, hop, Bool.false_eq_true, if_false]
    exact ⟨_, hvalue, hvalue'⟩

theorem BinaryOp.sameValue_apply (op : BinaryOp) (o : Options) (loc : Location)
    (hleft : p'.literal? = p.literal?) (hright : q'.literal? = q.literal?)
    (hs : (op.apply o p q loc).Steady I arguments w list count)
    (hp : p.Steady I arguments w list count → p.SameValue I arguments w w' p')
    (hq : q.Steady I arguments w list count → q.SameValue I arguments w w' q') :
    (op.apply o p q loc).SameValue I arguments w w' (op.apply o p' q' loc) := by
  have hfold : op.foldParams? o p' q' loc = op.foldParams? o p q loc := by
    rw [foldParams?, foldParams?, hleft, hright]
  unfold BinaryOp.apply at hs ⊢
  rw [hfold]
  cases hr : op.foldParams? o p q loc with
  | none =>
      rw [hr] at hs
      obtain ⟨hsp, hsq⟩ := BinaryOp.steady_operands hs
      exact op.sameValue_block (hp hsp) (hq hsq)
  | some r =>
      simp only [BinaryOp.foldParams?, Option.ite_none_right_eq_some, Option.bind_eq_some_iff,
        Option.map_eq_some_iff] at hr
      obtain ⟨_, _, _, _, _, l, _, rfl⟩ := hr
      exact ⟨I.literal l, rfl, rfl⟩

end Values

-- The slots between a local and the end of the stack, with its own, are some of all slots in scope.
theorem Site.depth_le {t : ScopeTree} {id : Nat} {x : String} {l : Local}
    (hx : t.search? id x = some l) :
    Site.depth ⟨t, id, x, 0⟩ + l.slots ≤ Local.slotTotal (t.frames id) := by
  rw [ScopeTree.search?_eq] at hx
  obtain ⟨d, hd, hle⟩ := Local.depthIn?_le hx
  rw [depth, ScopeTree.depth?_eq, hd]
  exact hle

section Shift

-- Slots `ys` are pushed, and what is compiled with them in mind finds what was there before.
variable {V : Type} {I : Interpretation V} (hI : I.Counts) {arguments : String → V} {w : Memory V}
  {ys : List V}

include hI

theorem Stack.value_cell (list : String) (d : Nat) :
    (read list (slotIndex list d)).value I arguments w =
      some (I.item (I.behindEnd (w.lists list).length d) (w.lists list)) := by
  unfold slotIndex
  by_cases hd : d = 0
  · rw [if_pos hd, hd, ← hI.item_last]
    rfl
  · rw [if_neg hd]
    exact value_read (value_behindEnd d)

theorem Stack.sameValue_cell (list : String) {d : Nat} (hfit : d + ys.length < 2 ^ 32) :
    (read list (slotIndex list d)).SameValue I arguments w
      (w.setList list (w.lists list ++ ys)) (read list (slotIndex list (d + ys.length))) := by
  refine ⟨_, value_cell hI list d, ?_⟩
  rw [value_cell hI, w.lists_setList, hI.item_behindEnd hfit]

theorem Stack.sameValue_element {list : String} {d size : Nat} {p p' : Param}
    (hfit : d + size + ys.length < 2 ^ 32)
    (havoids : (read list (itemIndex list d size p)).Avoids I arguments w list ys.length)
    (hp : p.SameValue I arguments w (w.setList list (w.lists list ++ ys)) p') :
    (read list (itemIndex list d size p)).SameValue I arguments w
      (w.setList list (w.lists list ++ ys))
      (read list (itemIndex list (d + ys.length) size p')) := by
  obtain ⟨v, hv, hv'⟩ := hp
  have hindex : (itemIndex list d size p).value I arguments w = some _ := value_itemIndex size hv
  refine ⟨_, value_read hindex, ?_⟩
  rw [value_read (value_itemIndex size hv'), w.lists_setList, List.length_append,
    Nat.add_right_comm, hI.behindEnd_add _ _ _ hfit,
    Interpretation.item_append (hI.index_add _ _ _ (by omega))]
  intro number hnumber
  exact havoids _ _ number (.head _) hindex hnumber

variable {o : Options} {ctx : Context} {t : ScopeTree} (hr : ctx.InScope t)
  (hfit : Local.slotTotal (t.frames ctx.here) + ys.length < 2 ^ 32)

include hr hfit

theorem Context.sameValue_operand {x : String}
    (hapart : ∀ g, ctx.resolve? t x = some (.globalList g) → g.name ≠ o.stackList)
    (hcomplete : ((ctx.operand t 0 x).emit o).Complete) :
    ((ctx.operand t 0 x).emit o).SameValue I arguments w
      (w.setList o.stackList (w.lists o.stackList ++ ys)) ((ctx.operand t ys.length x).emit o) := by
  unfold Context.operand at hcomplete ⊢
  cases hb : ctx.resolve? t x with
  | none =>
      rw [hb] at hcomplete
      exact absurd rfl hcomplete.filled
  | some b =>
      rw [hb] at hcomplete
      cases b with
      | constant c => exact ⟨_, rfl, rfl⟩
      | globalVariable v => exact ⟨_, rfl, rfl⟩
      | parameter p => exact ⟨_, rfl, rfl⟩
      | globalList g =>
          refine ⟨I.contents (w.lists g.name), rfl, ?_⟩
          rw [← w.lists_setList_of_ne (hapart g hb) (w.lists o.stackList ++ ys)]
          rfl
      | localVariable v =>
          by_cases hv : v.slots = 1
          · have hx := Context.search?_of_resolve? (l := .variable v) hr.inside hb
            have hle := Site.depth_le hx
            simp only [hv, if_true, Operand.emit]
            exact Stack.sameValue_cell hI o.stackList (by omega)
          · simp only [hv, if_false] at hcomplete
            exact absurd rfl hcomplete.filled
      | localArray a => exact absurd rfl hcomplete.filled
      | method m => exact absurd rfl hcomplete.filled

-- An expression has the value that it had before slots were pushed.
theorem Expr.sameValue_operand (e : Expr)
    (hapart : ∀ x ∈ e.names, ∀ g,
      ctx.resolve? t x = some (.globalList g) → g.name ≠ o.stackList)
    (hs : ((e.operand ctx t 0).emit o).Steady I arguments w o.stackList ys.length) :
    ((e.operand ctx t 0).emit o).SameValue I arguments w
      (w.setList o.stackList (w.lists o.stackList ++ ys)) ((e.operand ctx t ys.length).emit o) := by
  have hliteral (e : Expr) : ((e.operand ctx t ys.length).emit o).literal? =
      ((e.operand ctx t 0).emit o).literal? := by
    rw [Expr.literal?_emit hr, Expr.literal?_emit hr]
  induction e with
  | literal value _ => exact ⟨_, rfl, rfl⟩
  | lookup x _ => exact Context.sameValue_operand hI hr hfit (hapart x (.head _)) hs.complete
  | item x index _ ih =>
      have hindex (hs : ((index.operand ctx t 0).emit o).Steady I arguments w o.stackList
          ys.length) := ih (fun x hx => hapart x (.tail _ hx)) hs
      unfold Expr.operand at hs ⊢
      cases hb : ctx.resolve? t x with
      | none =>
          rw [hb] at hs
          exact absurd rfl hs.complete.filled
      | some b =>
          rw [hb] at hs
          cases b with
          | globalList g =>
              obtain ⟨v, hv, hv'⟩ := hindex (hs.of_mem (.head _))
              refine ⟨_, Stack.value_read hv, ?_⟩
              rw [← w.lists_setList_of_ne (hapart x (.head _) g hb) (w.lists o.stackList ++ ys)]
              exact Stack.value_read hv'
          | localArray a =>
              have hx := Context.search?_of_resolve? (l := .array a) hr.inside hb
              have hle : _ + a.items.length ≤ _ := Site.depth_le hx
              -- the index of the item is an operand of the index on the stack
              have hsum := hs.of_mem (.head _)
              have hpart := hsum.of_mem (.tail _ (.head _))
              exact Stack.sameValue_element hI (by omega) hs.avoids (hindex hpart)
          | _ => exact absurd rfl hs.complete.filled
  | unary op e loc ih => exact op.sameValue_apply o loc (hliteral e) hs (ih hapart)
  | binary op a b loc iha ihb =>
      exact op.sameValue_apply o loc (hliteral a) (hliteral b) hs
        (iha fun x hx => hapart x (List.mem_append_left _ hx))
        (ihb fun x hx => hapart x (List.mem_append_right _ hx))

end Shift

-- What is planned for a declaration fills its slots.
theorem Local.Compilable.filledBy {V : Type} {I : Interpretation V} (hI : I.Counts) {o : Options}
    {ctx : Context} {s : Session} (hr : ctx.InScope s.scopes) (hpending : s.pendingSlots = 0)
    {l : Local} (hl : l.Compilable o ctx s)
    (hroom : Local.slotTotal (s.scopes.frames ctx.here) + l.slots < 2 ^ 32)
    {arguments : String → V} {w : Memory V} (n : Nat)
    (havoids : ∀ (k : Nat) (e : Expr), l.contents[k]? = some e →
      (s.compiled o ctx e).Avoids I arguments w o.stackList k) :
    l.FilledBy I arguments w o ctx s n (Command.emitAll o (l.plan ctx s.scopes).code) := by
  have hcompiled := Session.compiled_eq hr.within hpending o
  have hcode : (l.plan ctx s.scopes).code = l.pushes ctx s.scopes := by
    rcases l.plan_cases hr with ⟨-, hcode, -⟩ | ⟨earlier, hfind, -⟩
    · exact hcode
    · rw [Local.find?_eq_none_of_ne hl.name_free] at hfind
      cases hfind
  -- a slot without an expression is filled with a literal
  have hapart : ∀ e ∈ l.contents, ∀ x ∈ e.names, ∀ g,
      ctx.resolve? s.scopes x = some (.globalList g) → g.name ≠ o.stackList := by
    intro e he
    rcases Local.contents_subset he with he | ⟨value, loc, rfl⟩
    · intro x hx g hg
      exact hl.apart e he x hx g (by rw [hr.within.resolve_eq, hg])
    · exact nofun
  have hs : ∀ (k : Nat) (e : Expr), l.contents[k]? = some e →
      ((e.operand ctx s.scopes 0).emit o).Steady I arguments w o.stackList k := by
    intro k e he
    rcases Local.contents_subset (List.mem_of_getElem? he) with hmem | ⟨value, loc, rfl⟩
    · rw [← hcompiled]
      exact ⟨hl.complete e hmem, havoids k e he⟩
    · exact Param.steady_literal value
  have hslots := l.length_contents
  rw [hcode]
  refine Local.run_pushes n .nil fun e begun hget hbegun => ?_
  have hlt := (List.getElem?_eq_some_iff.mp hget).1
  have hfit : Local.slotTotal (s.scopes.frames ctx.here) + begun.length < 2 ^ 32 := by omega
  obtain ⟨v, hv, hv'⟩ := Expr.sameValue_operand hI hr hfit e
    (hapart e (List.mem_of_getElem? hget)) (hs _ e hget)
  rw [← hcompiled] at hv
  exact ⟨v, hv', List.rel_append hbegun (.cons hv .nil)⟩

-- Whether a variable has one slot or several, the same is reported, and whether its name is taken
-- does not depend on slots.
theorem LocalVariable.plan_problems {ctx : Context} {t : ScopeTree} (hr : ctx.InScope t)
    (v : LocalVariable) {k k' : UInt32} (hk : k ≠ 0) (hk' : k' ≠ 0) :
    ((Local.variable { v with slots := k }).plan ctx t).problems =
      ((Local.variable { v with slots := k' }).plan ctx t).problems := by
  have hown : (Local.variable { v with slots := k }).problems ctx t =
      (Local.variable { v with slots := k' }).problems ctx t := by
    simp only [Local.problems, hk, hk', if_false]
  have hcases := (Local.variable { v with slots := k }).plan_cases hr
  have hcases' := (Local.variable { v with slots := k' }).plan_cases hr
  simp only [Local.name, Local.location] at hcases hcases'
  rcases hcases with ⟨hnone, -, hds⟩ | ⟨earlier, hsome, -, hds⟩
  · rw [hnone] at hcases'
    rcases hcases' with ⟨-, -, hds'⟩ | ⟨_, hsome', -⟩
    · rw [hds, hds', hown]
    · cases hsome'
  · rw [hsome] at hcases'
    rcases hcases' with ⟨hnone', -⟩ | ⟨earlier', hsome', -, hds'⟩
    · cases hnone'
    · obtain rfl := Option.some.inj hsome'
      rw [hds, hds', hown]

-- A declaration fills each slot with the value that its expression has before the first slot is
-- pushed, if the slots can be counted in 32 bits and the expression reads none of the slots pushed
-- before its own. However many slots a variable has, its problems are reported as if it had one.
theorem declare_fills_from_prior_state {V : Type} {I : Interpretation V} (hI : I.Counts)
    (o : Options) {ctx : Context} {s : Session} (hr : ctx.InScope s.scopes)
    (hpending : s.pendingSlots = 0) (hmuted : s.muted = false) :
    (∀ l : Local, l.Compilable o ctx s →
      Local.slotTotal (s.scopes.frames ctx.here) + l.slots < 2 ^ 32 →
      ∃ blocks s', Lower.declare o ctx l s = (.ok blocks, s') ∧
        ∀ arguments w n,
          (∀ (k : Nat) (e : Expr), l.contents[k]? = some e →
            (s.compiled o ctx e).Avoids I arguments w o.stackList k) →
          l.FilledBy I arguments w o ctx s n blocks) ∧
    ∀ (v : LocalVariable) (k k' : UInt32), k ≠ 0 → k' ≠ 0 → ∃ blocks blocks' s₁ s₂,
      Lower.declare o ctx (.variable { v with slots := k }) s = (.ok blocks, s₁) ∧
      Lower.declare o ctx (.variable { v with slots := k' }) s = (.ok blocks', s₂) ∧
      s₁.report.diagnostics = s₂.report.diagnostics := by
  constructor
  · intro l hl hroom
    obtain ⟨s', hrun, -⟩ := Lower.gives_declare (c := s.core) o hr hmuted hpending l s rfl
    exact ⟨_, s', hrun, fun arguments w n havoids =>
      hl.filledBy hI hr hpending hroom n havoids⟩
  · intro v k k' hk hk'
    obtain ⟨s₁, hrun₁, hcore₁⟩ := Lower.gives_declare (c := s.core) o hr hmuted hpending
      (.variable { v with slots := k }) s rfl
    obtain ⟨s₂, hrun₂, hcore₂⟩ := Lower.gives_declare (c := s.core) o hr hmuted hpending
      (.variable { v with slots := k' }) s rfl
    refine ⟨_, _, s₁, s₂, hrun₁, hrun₂, ?_⟩
    calc s₁.report.diagnostics
        = s.report.diagnostics ++
            ((Local.variable { v with slots := k }).plan ctx s.scopes).problems :=
          congrArg Core.diagnostics hcore₁
      _ = s.report.diagnostics ++
            ((Local.variable { v with slots := k' }).plan ctx s.scopes).problems := by
          rw [v.plan_problems hr hk hk']
      _ = s₂.report.diagnostics := (congrArg Core.diagnostics hcore₂).symm

-- A scope with a local array of two items, which are the whole stack.

def Session.pair : Session :=
  let at0 : Location := ⟨0, ⟨0, 0⟩⟩
  let number (k : Nat) : Expr := .literal (.number (Float.ofNat k)) at0
  let root := (ScopeTree.createRoot { method := some .sample }).2
  { scopes := (Local.plan (Context.sample.withScope 0) root
      (.array ⟨"a", .number, [number 1, number 2], at0⟩)).scopes }

def Memory.pair : Memory Datum where
  globals _ := .blank
  lists _ := [.whole 1, .whole 2]

-- An array of a number and the item `k` of that array.
def Local.picking (k : Nat) : Local :=
  let at0 : Location := ⟨0, ⟨0, 0⟩⟩
  let number (k : Nat) : Expr := .literal (.number (Float.ofNat k)) at0
  .array ⟨"b", .number, [number 7, .item "a" (number k) at0], at0⟩

theorem Session.inScope_pair : (Context.sample.withScope 0).InScope Session.pair.scopes :=
  ⟨rfl, by decide⟩

theorem Session.compiled_pair (k : Nat) (loc loc' : Location) :
    Session.pair.compiled {} (Context.sample.withScope 0)
      (.item "a" (.literal (.number (Float.ofNat k)) loc) loc') =
      Stack.read "stack" (Stack.itemIndex "stack" 0 2 (.number (Float.ofNat k))) := by
  rw [compiled_eq inScope_pair.within rfl]
  rfl

theorem Local.compilable_picking (k : Nat) :
    (Local.picking k).Compilable {} (Context.sample.withScope 0) .pair where
  name_free := by
    intro l' hl'
    obtain rfl := List.mem_singleton.mp hl'
    change "a" ≠ "b"
    decide
  complete := by
    intro e he
    rcases he with _ | ⟨_, _ | ⟨_, ⟨⟩⟩⟩
    · exact ⟨nofun, nofun⟩
    · let K : Reference → Prop := fun reference => reference ≠ .nothing
      have hlist : K (.list "stack") := nofun
      have hrefers := Stack.refersTo_read hlist (Stack.refersTo_itemIndex hlist 0 2
        (Param.refersTo_literal (.number (Float.ofNat k))))
      rw [Session.compiled_pair]
      exact ⟨nofun, fun b hb hempty => (hrefers.parts b hb).filled hempty rfl⟩
  apart := by
    intro e he x hx g hg
    rcases he with _ | ⟨_, _ | ⟨_, ⟨⟩⟩⟩
    · cases hx
    · obtain rfl := List.mem_singleton.mp hx
      cases hg

theorem Local.fits_picking (k : Nat) :
    Local.slotTotal (Session.pair.scopes.frames (Context.sample.withScope 0).here) +
      (Local.picking k).slots < 2 ^ 32 := by
  change 2 + 2 < 2 ^ 32
  omega

-- Counted exactly, the index of an item is its number after the slots before the array.
theorem Stack.value_itemIndex_exact {list : String} {d size k : Nat} {w : Memory Datum}
    {xs : List Datum} (arguments : String → Datum) (hw : w.lists list = xs)
    (hd : d + size < 2 ^ 32) (hk : k < 2 ^ 32) :
    (itemIndex list d size (.number (Float.ofNat k))).value .exact arguments w =
      some (.whole (xs.length - (d + size) + k)) := by
  have hoffset : (Param.number (Float.ofNat k)).value .exact arguments w =
      some (Interpretation.exact.offset k) := rfl
  rw [value_itemIndex size hoffset, Interpretation.behindEnd_exact hd, hw]
  change some (Datum.combine .add (.whole (xs.length - (d + size)))
    (Interpretation.exact.offset k)) = _
  rw [Datum.combine_add, Interpretation.number?_offset hk, Option.getD_some]

theorem declare_fills_from_prior_state_pair :
    Interpretation.exact.Counts ∧ (Context.sample.withScope 0).InScope Session.pair.scopes ∧
    (Local.picking 2).Compilable {} (Context.sample.withScope 0) .pair ∧
    Local.slotTotal (Session.pair.scopes.frames (Context.sample.withScope 0).here) +
      (Local.picking 2).slots < 2 ^ 32 ∧
    ∃ blocks s',
      Lower.declare {} (Context.sample.withScope 0) (.picking 2) .pair = (.ok blocks, s') ∧
      ∀ arguments n, Block.runAll .exact arguments n blocks .pair =
        .next (Memory.pair.setList "stack"
          [.whole 1, .whole 2, Interpretation.exact.offset 7, .whole 2]) := by
  obtain ⟨hfills, -⟩ := declare_fills_from_prior_state Interpretation.counts_exact {}
    Session.inScope_pair rfl rfl
  obtain ⟨blocks, s', hrun, hfilled⟩ :=
    hfills (.picking 2) (Local.compilable_picking 2) (Local.fits_picking 2)
  refine ⟨Interpretation.counts_exact, Session.inScope_pair, Local.compilable_picking 2,
    Local.fits_picking 2, blocks, s', hrun, fun arguments n => ?_⟩
  have hindex : (Stack.itemIndex "stack" 0 2 (.number (Float.ofNat 2))).value .exact arguments
      .pair = some (.whole 2) :=
    Stack.value_itemIndex_exact arguments rfl (by omega) (by omega)
  have havoids : ∀ (k : Nat) (e : Expr), (Local.picking 2).contents[k]? = some e →
      (Session.pair.compiled {} (Context.sample.withScope 0) e).Avoids .exact arguments .pair
        "stack" k := by
    intro k e he index i number hpart hi hnumber
    rcases List.mem_of_getElem? he with _ | ⟨_, _ | ⟨_, ⟨⟩⟩⟩
    · cases hpart
    · rw [Session.compiled_pair] at hpart
      rcases hpart with _ | ⟨_, _ | ⟨_, _ | ⟨_, _ | ⟨_, ⟨⟩⟩⟩⟩⟩
      rw [hindex] at hi
      obtain rfl := Option.some.inj hi
      obtain rfl := Index.item.inj hnumber
      exact .inl (Nat.le_refl 2)
  obtain ⟨vs, -, hvalues, hblocks⟩ := hfilled arguments .pair n havoids
  rcases hvalues with _ | ⟨hfirst, _ | ⟨hsecond, ⟨⟩⟩⟩
  rw [Session.compiled_pair, Stack.value_read hindex] at hsecond
  obtain rfl := Option.some.inj hfirst
  obtain rfl := Option.some.inj hsecond
  exact hblocks

-- With an index beyond the end of the array, what is read is the slot that was just pushed.
theorem declare_reads_pushed_slot :
    Interpretation.exact.Counts ∧ (Context.sample.withScope 0).InScope Session.pair.scopes ∧
    (Local.picking 3).Compilable {} (Context.sample.withScope 0) .pair ∧
    Local.slotTotal (Session.pair.scopes.frames (Context.sample.withScope 0).here) +
      (Local.picking 3).slots < 2 ^ 32 ∧
    ∃ blocks s',
      Lower.declare {} (Context.sample.withScope 0) (.picking 3) .pair = (.ok blocks, s') ∧
      ∀ arguments n, ¬(Local.picking 3).FilledBy .exact arguments .pair {}
        (Context.sample.withScope 0) .pair n blocks := by
  obtain ⟨s', hrun, -⟩ := Lower.gives_declare {} Session.inScope_pair rfl rfl (.picking 3)
    Session.pair rfl
  refine ⟨Interpretation.counts_exact, Session.inScope_pair, Local.compilable_picking 3,
    Local.fits_picking 3, _, s', hrun, ?_⟩
  rintro arguments n ⟨vs, -, hvalues, hblocks⟩
  let seven : Datum := Interpretation.exact.offset 7
  let pushed : Memory Datum := Memory.pair.setList "stack" [.whole 1, .whole 2, seven]
  have hfirst : (Stack.push "stack" (.number (Float.ofNat 7))).run .exact arguments n .pair =
      .next pushed := Stack.run_push rfl
  have hread : (Stack.read "stack" (Stack.itemIndex "stack" 1 2
      (.number (Float.ofNat 3)))).value .exact arguments pushed = some seven := by
    rw [Stack.value_read (Stack.value_itemIndex_exact arguments (Memory.pair.lists_setList _ _)
      (by omega) (by omega)), Memory.lists_setList]
    rfl
  change Block.runAll .exact arguments n [Stack.push "stack" (.number (Float.ofNat 7)),
    Stack.push "stack" (Stack.read "stack" (Stack.itemIndex "stack" 1 2
      (.number (Float.ofNat 3))))] .pair = _ at hblocks
  rw [Block.runAll, hfirst, Outcome.bind, Block.runAll_singleton, Stack.run_push hread] at hblocks
  have hstack := congrArg (fun w => w.lists "stack") (Outcome.next.inj hblocks)
  simp only [Memory.lists_setList, pushed] at hstack
  change [Datum.whole 1, .whole 2] ++ [seven, seven] = [.whole 1, .whole 2] ++ vs at hstack
  obtain rfl := List.append_cancel_left hstack
  -- before the declaration there was nothing to read
  rcases hvalues with _ | ⟨_, _ | ⟨hprior, _⟩⟩
  rw [Session.compiled_pair, Stack.value_read (Stack.value_itemIndex_exact arguments rfl
    (by omega) (by omega))] at hprior
  change some Datum.blank = some (.known (.number (Float.ofNat 7))) at hprior
  cases hprior

end SpriteCompiler
