import SpriteCompiler.Proofs.Meaning.Machine
import SpriteCompiler.Proofs.Meaning.Source
import SpriteCompiler.Proofs.Program.Everywhere

namespace SpriteCompiler

namespace Expr

-- The literal that is left of an expression at compile time, if there is one.
def constant? (o : Options) (names : String → Option Binding) (F : List (List Local)) :
    Expr → Option Literal
  | .literal value _ => some value
  | .lookup x _ =>
    match Local.searchIn? x F, names x with
    | none, some (.constant c) => some c.value
    | _, _ => none
  | .item _ _ _ => none
  | .unary op operand loc =>
    if o.foldConstants then
      (operand.constant? o names F).bind fun value => (op.fold value loc).toOption
    else none
  | .binary op left right loc =>
    if o.foldConstants then
      (left.constant? o names F).bind fun l =>
        (right.constant? o names F).bind fun r => (op.fold l r loc).toOption
    else none

-- The name is not that of a list which is the stack.
def Apart (stackList : String) (names : String → Option Binding) (F : List (List Local))
    (x : String) : Prop :=
  Local.searchIn? x F = none → ∀ l, names x = some (.globalList l) → l.name ≠ stackList

-- No list that is named is the stack, and where one of the two comparisons about which an
-- interpretation need not agree is applied at compile time, it does agree.
def Sound {V : Type} (I : Interpretation V) (o : Options) (names : String → Option Binding)
    (F : List (List Local)) : Expr → Prop
  | .literal _ _ => True
  | .lookup x _ => Apart o.stackList names F x
  | .item x index _ => Apart o.stackList names F x ∧ index.Sound I o names F
  | .unary _ operand _ => operand.Sound I o names F
  | .binary op left right _ =>
    left.Sound I o names F ∧ right.Sound I o names F ∧
      (o.foldConstants → op = .lessEqual ∨ op = .greaterEqual →
        ∀ l r, left.constant? o names F = some l → right.constant? o names F = some r →
          I.Agrees op l r)

end Expr

def Demand.sound {V : Type} (I : Interpretation V) (o : Options)
    (names : String → Option Binding) : Demand where
  expression F e := e.Sound I o names F

namespace Activation

variable {V : Type} (A : Activation V)

-- What the meaning of compiled code rests on, besides the laws of the interpretation.
def demand (o : Options) : Demand :=
  Demand.slotsFit.and (.sound A.interp o A.names)

-- What is read from the stack at an index beside a local array.
def spill (stackList : String) (s : Store V) (begun : List V) (x : String) (i : V) : V :=
  let stack := A.lists stackList ++ s.frames.stack ++ begun
  let depth := (Local.depthIn? x s.frames.locals).getD 0 + begun.length
  let size := (s.frames.find? x).elim 0 (·.2.length)
  A.interp.item (A.interp.binary .add (A.interp.behindEnd stack.length (depth + size)) i) stack

-- The method is the one that is compiled.
structure Compiles (o : Options) (ctx : Context) (t : ScopeTree) : Prop where
  ready : ctx.Ready t
  names : ctx.outer? t.method = A.names
  result : t.method.map (fun m => o.returnVariable m.name) = some A.result
  stray : A.stray = A.spill o.stackList

-- The locals `F` are in scope, and the stack ends with their slots and those of a declaration that
-- is not finished. All else is as in the store.
structure Matches (stackList : String) (F : List (List Local)) (begun : List V) (s : Store V)
    (w : Memory V) : Prop where
  globals : w.globals = s.globals
  others : ∀ l, l ≠ stackList → w.lists l = A.lists l
  stack : w.lists stackList = A.lists stackList ++ s.frames.stack ++ begun
  locals : s.frames.locals = F
  filled : s.frames.Filled
  fits : Local.slotTotal F + begun.length < 2 ^ 32

variable {A} {o : Options} {ctx : Context} {t : ScopeTree} {x : String} {l : Local}
  {begun vs : List V} {s : Store V} {w : Memory V}

theorem Compiles.grows {t' : ScopeTree} (h : A.Compiles o ctx t)
    (hg : ScopeTree.Grows t t' ctx.here) (hv : t'.Valid) : A.Compiles o ctx t' :=
  ⟨h.ready.grows hg hv, by rw [hg.method_eq]; exact h.names, by rw [hg.method_eq]; exact h.result,
    h.stray⟩

theorem Compiles.child (h : A.Compiles o ctx t) :
    A.Compiles o (ctx.withScope t.size) (t.child ctx.here) :=
  ⟨h.ready.child, by rw [ScopeTree.child_method]; exact h.names,
    by rw [ScopeTree.child_method]; exact h.result, h.stray⟩

theorem resolve?_eq (h : A.Compiles o ctx t)
    (hw : A.Matches o.stackList (t.frames ctx.here) begun s w) (x : String) :
    ctx.resolve? t x = ((s.frames.find? x).map fun p => p.1.binding).or (A.names x) := by
  have hfind := s.frames.find?_fst x
  rw [hw.locals, ← ScopeTree.search?_eq] at hfind
  rw [Context.resolve?_eq h.ready.inside, h.names, ← hfind, Option.map_map]
  rfl

theorem resolve?_of_find? (h : A.Compiles o ctx t)
    (hw : A.Matches o.stackList (t.frames ctx.here) begun s w)
    (hfind : s.frames.find? x = some (l, vs)) : ctx.resolve? t x = some l.binding := by
  rw [resolve?_eq h hw, hfind]
  rfl

theorem resolve?_of_not_find? (h : A.Compiles o ctx t)
    (hw : A.Matches o.stackList (t.frames ctx.here) begun s w)
    (hfind : s.frames.find? x = none) : ctx.resolve? t x = A.names x := by
  rw [resolve?_eq h hw, hfind]
  rfl

-- A variable of one slot holds one value.
theorem Matches.exists_value {F : List (List Local)} {v : LocalVariable}
    (hw : A.Matches o.stackList F begun s w) (hfind : s.frames.find? x = some (.variable v, vs))
    (hv : v.slots = 1) : ∃ u, vs = [u] := by
  refine List.length_eq_one_iff.mp ?_
  rw [hw.filled.length_eq hfind, Local.slots, hv]
  rfl

-- A name that is no local stands for nothing local.
theorem names_ne_local (h : A.Compiles o ctx t) (l : Local) : A.names x ≠ some l.binding := by
  intro hx
  rw [← h.names] at hx
  exact (Context.outer?_spec hx).2 l rfl

-- Where the slots of a local are on the stack, and what changes there with the local.
theorem Matches.split (hw : A.Matches o.stackList (t.frames ctx.here) begun s w)
    (h : s.frames.find? x = some (l, vs)) :
    ∃ before after, w.lists o.stackList = before ++ vs ++ after ∧
      Site.depth ⟨t, ctx.here, x, begun.length⟩ = after.length ∧
      after.length + vs.length < 2 ^ 32 ∧
      ∀ us, A.lists o.stackList ++ (s.frames.update x us).stack ++ begun =
        before ++ us ++ after := by
  obtain ⟨before, after, hsplit, hdepth, hle, hupdate⟩ :=
    Frames.list_split (A.lists o.stackList) begun hw.filled h
  have hfits := hw.fits
  rw [hw.locals] at hle
  rw [hw.locals, ← ScopeTree.depth?_eq] at hdepth
  obtain ⟨depth, hx, hdepth⟩ := Option.map_eq_some_iff.mp hdepth
  refine ⟨before, after, hw.stack.trans hsplit, ?_, by omega, hupdate⟩
  rw [Site.depth, hx, Option.getD_some, hdepth]

-- The value of a local is found on the stack.
theorem value_cell (hI : A.interp.Lawful)
    (hw : A.Matches o.stackList (t.frames ctx.here) begun s w) {v : V}
    (h : s.frames.find? x = some (l, [v])) :
    ((Operand.cell ⟨t, ctx.here, x, begun.length⟩).emit o).value A.interp A.arguments w = some v := by
  obtain ⟨before, after, hsplit, hdepth, hfit, _⟩ := hw.split h
  rw [Operand.emit, hdepth]
  exact Stack.value_slot hI.toFindsSlots hsplit (by omega)

-- So is an item of a local array, and if there is no such item, something else of the stack is.
theorem value_element (hI : A.interp.Lawful) (hc : A.Compiles o ctx t)
    (hw : A.Matches o.stackList (t.frames ctx.here) begun s w)
    (h : s.frames.find? x = some (l, vs)) {index : Operand} {i : V}
    (hi : (index.emit o).value A.interp A.arguments w = some i) :
    ((Operand.element ⟨t, ctx.here, x, begun.length⟩ vs.length index).emit o).value A.interp
      A.arguments w = some ((A.interp.element? i vs).getD (A.stray s begun x i)) := by
  obtain ⟨before, after, hsplit, hdepth, hfit, _⟩ := hw.split h
  rw [Operand.emit, Stack.value_read (Stack.value_itemIndex _ hi)]
  congr 1
  cases hv : A.interp.element? i vs with
  | some v =>
      rw [hdepth, hsplit, Option.getD_some]
      exact hI.item_of_element? hfit hv
  | none =>
      have hstack : A.lists o.stackList ++ s.frames.stack ++ begun = w.lists o.stackList :=
        hw.stack.symm
      simp only [Option.getD_none, hc.stray, spill, hstack, h, Option.elim_some, Site.depth,
        hw.locals, ScopeTree.depth?_eq]

end Activation

-- What is left of an expression at compile time.

theorem UnaryOp.literal?_apply (op : UnaryOp) (o : Options) (p : Param) (loc : Location) :
    (op.apply o p loc).literal? =
      if o.foldConstants then p.literal?.bind fun value => (op.fold value loc).toOption else none := by
  have hblock : (op.block p).literal? = none := by cases op <;> rfl
  rw [UnaryOp.apply, UnaryOp.foldParam?]
  by_cases hfold : o.foldConstants
  · simp only [hfold, if_true]
    cases p.literal? with
    | none => exact hblock
    | some value =>
        rw [Option.bind_some, Option.bind_some]
        cases (op.fold value loc).toOption with
        | none => exact hblock
        | some result => rfl
  · simpa [hfold] using hblock

theorem BinaryOp.literal?_apply (op : BinaryOp) (o : Options) (p q : Param) (loc : Location) :
    (op.apply o p q loc).literal? =
      if o.foldConstants then
        p.literal?.bind fun l => q.literal?.bind fun r => (op.fold l r loc).toOption
      else none := by
  have hblock : (op.block p q).literal? = none := by cases op <;> rfl
  rw [BinaryOp.apply, BinaryOp.foldParams?]
  by_cases hfold : o.foldConstants
  · simp only [hfold, if_true]
    cases p.literal? with
    | none => exact hblock
    | some l =>
        cases q.literal? with
        | none => exact hblock
        | some r =>
            simp only [Option.bind_some]
            cases (op.fold l r loc).toOption with
            | none => exact hblock
            | some result => rfl
  · simpa [hfold] using hblock

theorem Context.literal?_emit {ctx : Context} {t : ScopeTree} (hr : ctx.InScope t) (o : Options)
    (pending : Nat) (x : String) (loc : Location) :
    ((ctx.operand t pending x).emit o).literal? =
      (Expr.lookup x loc).constant? o (ctx.outer? t.method) (t.frames ctx.here) := by
  rw [Context.operand, Context.resolve?_eq hr.inside, ScopeTree.search?_eq, Expr.constant?]
  cases Local.searchIn? x (t.frames ctx.here) with
  | some l =>
      obtain v | a := l
      · by_cases hv : v.slots = 1
        · simp [Local.binding, hv, Operand.emit, Stack.read, Param.literal?]
        · simp [Local.binding, hv, Operand.emit, Param.literal?]
      · rfl
  | none =>
      cases hx : ctx.outer? t.method x with
      | none => rfl
      | some b =>
          cases b with
          | localVariable v => exact absurd rfl ((Context.outer?_spec hx).2 (.variable v))
          | _ => rfl

theorem Expr.literal?_emit {ctx : Context} {t : ScopeTree} (hr : ctx.InScope t) (o : Options)
    (pending : Nat) (e : Expr) :
    ((e.operand ctx t pending).emit o).literal? =
      e.constant? o (ctx.outer? t.method) (t.frames ctx.here) := by
  induction e with
  | literal value _ => rfl
  | lookup x loc => exact Context.literal?_emit hr o pending x loc
  | item x index _ _ =>
      rw [Expr.operand, Expr.constant?]
      split
      · rfl
      · rfl
      · rfl
  | unary op e loc ih => rw [Expr.operand, Operand.emit, UnaryOp.literal?_apply, ih, Expr.constant?]
  | binary op a b loc iha ihb =>
      rw [Expr.operand, Operand.emit, BinaryOp.literal?_apply, iha, ihb, Expr.constant?]

namespace Activation

variable {V : Type} {A : Activation V} {o : Options} {ctx : Context} {t : ScopeTree} {x : String}
  {begun : List V} {s : Store V} {w : Memory V} (hI : A.interp.Lawful) (hc : A.Compiles o ctx t)
  (hw : A.Matches o.stackList (t.frames ctx.here) begun s w)

include hw

-- A list that is named is not the stack, so that it is as it was.
theorem lists_eq (hx : Expr.Apart o.stackList A.names (t.frames ctx.here) x)
    (hfind : s.frames.find? x = none) {l : GlobalList} (hl : A.names x = some (.globalList l)) :
    w.lists l.name = A.lists l.name := by
  refine hw.others l.name (hx ?_ l hl)
  rw [← hw.locals, ← Frames.find?_fst, hfind]
  rfl

include hI hc

theorem value_lookup (loc : Location)
    (hx : Expr.Apart o.stackList A.names (t.frames ctx.here) x)
    (hclean : ctx.problems t x loc = []) :
    ((ctx.operand t begun.length x).emit o).value A.interp A.arguments w = some (A.lookup s x) := by
  rw [Context.problems] at hclean
  rw [Context.operand, Activation.lookup]
  cases hfind : s.frames.find? x with
  | some p =>
      obtain ⟨l, vs⟩ := p
      rw [resolve?_of_find? hc hw hfind] at hclean ⊢
      obtain v | a := l
      · have hv : v.slots = 1 := by
          by_contra hv
          simp [Local.binding, hv] at hclean
        obtain ⟨u, rfl⟩ := hw.exists_value hfind hv
        simp only [Local.binding, hv, if_true]
        exact value_cell hI hw hfind
      · simp [Local.binding] at hclean
  | none =>
      rw [resolve?_of_not_find? hc hw hfind] at hclean ⊢
      cases hb : A.names x with
      | none => simp [hb] at hclean
      | some b =>
          cases b with
          | constant c => rfl
          | globalVariable v =>
              simp [Operand.emit, Param.value, Block.value, Param.text, hw.globals]
          | globalList l =>
              simp [Operand.emit, Param.value, Block.value, Param.text,
                lists_eq hw hx hfind hb]
          | parameter p => simp [Operand.emit, Param.value, Block.value, Param.text]
          | localVariable v => exact absurd hb (names_ne_local hc (.variable v))
          | localArray a => exact absurd hb (names_ne_local hc (.array a))
          | method m => simp [hb] at hclean

theorem value_operand (e : Expr) (hs : e.Sound A.interp o A.names (t.frames ctx.here))
    (hclean : e.problems ctx t = []) :
    ((e.operand ctx t begun.length).emit o).value A.interp A.arguments w =
      some (A.value s begun e) := by
  induction e with
  | literal value _ => rfl
  | lookup x loc => exact value_lookup hI hc hw loc hs hclean
  | item x index loc ih =>
      rw [Expr.problems] at hclean
      rw [Expr.operand, Activation.value, Activation.item]
      cases hfind : s.frames.find? x with
      | some p =>
          obtain ⟨l, vs⟩ := p
          rw [resolve?_of_find? hc hw hfind] at hclean ⊢
          obtain v | a := l
          · simp [Local.binding] at hclean
          · have hlen : a.items.length = vs.length := (hw.filled.length_eq hfind).symm
            simp only [Local.binding, hlen] at hclean ⊢
            exact value_element hI hc hw hfind (ih hs.2 hclean)
      | none =>
          rw [resolve?_of_not_find? hc hw hfind] at hclean ⊢
          cases hb : A.names x with
          | none => simp [hb] at hclean
          | some b =>
              cases b with
              | globalList l =>
                  simp only [hb] at hclean
                  simp [Operand.emit, Param.value, Block.value, Param.text,
                    ih hs.2 hclean, lists_eq hw hs.1 hfind hb]
              | localArray a => exact absurd hb (names_ne_local hc (.array a))
              | _ => simp [hb] at hclean
  | unary op e loc ih => exact op.value_apply hI o loc (ih hs hclean)
  | binary op a b loc iha ihb =>
      obtain ⟨ha, hb, hagree⟩ := hs
      rw [Expr.problems, List.append_eq_nil_iff] at hclean
      refine op.value_apply hI o loc (iha ha hclean.1) (ihb hb hclean.2) fun hfold l r hl hr => ?_
      -- Only for these two is the fold right for the operands at hand and not for all operands.
      by_cases horder : op = .lessEqual ∨ op = .greaterEqual
      · rw [Expr.literal?_emit hc.ready.toInScope, hc.names] at hl hr
        exact hagree hfold horder l r hl hr
      · rw [not_or] at horder
        exact hI.fold_binary op l r horder.1 horder.2

end Activation

end SpriteCompiler
