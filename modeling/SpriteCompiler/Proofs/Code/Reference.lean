import SpriteCompiler.Proofs.Block.Reference
import SpriteCompiler.Proofs.Code.Growth

namespace SpriteCompiler

-- The problem is one that leaves a placeholder in place of a value.
def Diagnostic.LeavesGap (d : Diagnostic) : Prop :=
  d.kind = .notDefined ∨ d.kind = .improperUsage

variable {K : Reference → Prop}

namespace Operand

def RefersTo (K : Reference → Prop) : Operand → Prop
  | .literal _ | .cell _ => True
  | .empty => K .nothing
  | .global x => K (.variable x)
  | .contents x => K (.list x)
  | .param x _ => K (.parameter x)
  | .item x index => K (.list x) ∧ index.RefersTo K
  | .element _ _ index => index.RefersTo K
  | .unary _ operand _ => operand.RefersTo K
  | .binary _ left right _ => left.RefersTo K ∧ right.RefersTo K

theorem refersTo_conjunction (loc : Location) {ps : List Operand} (h : ∀ p ∈ ps, p.RefersTo K) :
    (conjunction loc ps).RefersTo K := by
  induction ps with
  | nil => trivial
  | cons p ps ih =>
      have hp := h p (List.mem_cons_self ..)
      have hps := ih fun q hq => h q (List.mem_cons_of_mem _ hq)
      cases ps with
      | nil => exact hp
      | cons q ps => exact ⟨hp, hps⟩

-- An operand is written with the same references. Where locals are read, the stack is one more.
theorem refersTo_emit (o : Options) (hstack : K (.list o.stackList)) {p : Operand}
    (h : p.RefersTo K) : (p.emit o).RefersTo K := by
  induction p with
  | literal value => exact Param.refersTo_literal value
  | empty => exact ⟨fun b hb => by simp [emit, Param.parts] at hb, fun _ => h⟩
  | global x =>
      exact Param.refersTo_block (Block.refersTo_named rfl rfl h (by simp [Param.refersTo_text]))
  | contents x =>
      exact Param.refersTo_block (Block.refersTo_named rfl rfl h (by simp [Param.refersTo_text]))
  | param x kind =>
      exact Param.refersTo_block (Block.refersTo_named rfl rfl h (by simp [Param.refersTo_text]))
  | cell site => exact Stack.refersTo_read hstack (Stack.refersTo_slotIndex hstack _)
  | item x index ih =>
      exact Param.refersTo_block (Block.refersTo_named rfl rfl h.1
        (by simp [ih h.2, Param.refersTo_text]))
  | element site size index ih =>
      exact Stack.refersTo_read hstack (Stack.refersTo_itemIndex hstack _ _ (ih h))
  | unary op operand loc ih => exact op.refersTo_apply o loc (ih h)
  | binary op left right loc ihl ihr => exact op.refersTo_apply o loc (ihl h.1) (ihr h.2)

end Operand

namespace Command

mutual

def RefersTo (K : Reference → Prop) : Command → Prop
  | .push _ value | .store _ value => value.RefersTo K
  | .setVariable x value | .changeVariable x value => K (.variable x) ∧ value.RefersTo K
  | .scope body | .forever body => AllReferTo K body
  | .repeatTimes value body | .repeatUntil value body | .ifThen value body =>
    value.RefersTo K ∧ AllReferTo K body
  | .ifThenElse value body other =>
    value.RefersTo K ∧ AllReferTo K body ∧ AllReferTo K other
  | .release _ | .stop => True

def AllReferTo (K : Reference → Prop) : List Command → Prop
  | [] => True
  | c :: rest => c.RefersTo K ∧ AllReferTo K rest

end

theorem allReferTo_iff {code : List Command} :
    AllReferTo K code ↔ ∀ c ∈ code, c.RefersTo K := by
  induction code with
  | nil => simp [AllReferTo]
  | cons c code ih => simp [AllReferTo, ih]

theorem allReferTo_append {a b : List Command} :
    AllReferTo K (a ++ b) ↔ AllReferTo K a ∧ AllReferTo K b := by
  simp only [allReferTo_iff, List.mem_append, or_imp, forall_and]

mutual

-- Blocks refer to what their code refers to, and to the stack.
theorem allReferTo_emit (o : Options) (hstack : K (.list o.stackList)) :
    ∀ c : Command, c.RefersTo K → Block.AllReferTo K (c.emit o)
  | .push _ value, h => by
      have hvalue := value.refersTo_emit o hstack h
      exact Block.allReferTo_singleton (Block.refersTo_named rfl rfl hstack
        (by simp [hvalue, Param.refersTo_text]))
  | .release slots, _ => Stack.allReferTo_release hstack slots
  | .store site value, h => by
      have hvalue := value.refersTo_emit o hstack h
      have hindex := Stack.refersTo_slotIndex hstack site.depth
      exact Block.allReferTo_singleton (Block.refersTo_named rfl rfl hstack
        (by simp [hvalue, hindex, Param.refersTo_text]))
  | .setVariable x value, h => by
      have hvalue := value.refersTo_emit o hstack h.2
      exact Block.allReferTo_singleton (Block.refersTo_named rfl rfl h.1
        (by simp [hvalue, Param.refersTo_text]))
  | .changeVariable x amount, h => by
      have hamount := amount.refersTo_emit o hstack h.2
      exact Block.allReferTo_singleton (Block.refersTo_named rfl rfl h.1
        (by simp [hamount, Param.refersTo_text]))
  | .scope body, h => allReferTo_emitAll o hstack body h
  | .repeatTimes count body, h => by
      have hcount := count.refersTo_emit o hstack h.1
      have hbody := Param.refersTo_body (allReferTo_emitAll o hstack body h.2)
      exact Block.allReferTo_singleton (Block.refersTo_unnamed rfl (by simp [hcount, hbody]))
  | .repeatUntil condition body, h => by
      have hcondition := condition.refersTo_emit o hstack h.1
      have hbody := Param.refersTo_body (allReferTo_emitAll o hstack body h.2)
      exact Block.allReferTo_singleton (Block.refersTo_unnamed rfl (by simp [hcondition, hbody]))
  | .forever body, h => by
      have hbody := Param.refersTo_body (allReferTo_emitAll o hstack body h)
      exact Block.allReferTo_singleton (Block.refersTo_unnamed rfl (by simp [hbody]))
  | .ifThen condition body, h => by
      have hcondition := condition.refersTo_emit o hstack h.1
      have hbody := Param.refersTo_body (allReferTo_emitAll o hstack body h.2)
      exact Block.allReferTo_singleton (Block.refersTo_unnamed rfl (by simp [hcondition, hbody]))
  | .ifThenElse condition body other, h => by
      have hcondition := condition.refersTo_emit o hstack h.1
      have hbody := Param.refersTo_body (allReferTo_emitAll o hstack body h.2.1)
      have hother := Param.refersTo_body (allReferTo_emitAll o hstack other h.2.2)
      exact Block.allReferTo_singleton (Block.refersTo_unnamed rfl
        (by simp [hcondition, hbody, hother]))
  | .stop, _ =>
      Block.allReferTo_singleton (Block.refersTo_unnamed rfl (by simp [Param.refersTo_text]))

theorem allReferTo_emitAll (o : Options) (hstack : K (.list o.stackList)) :
    ∀ code : List Command, AllReferTo K code → Block.AllReferTo K (emitAll o code)
  | [], _ => fun b hb => by simp [emitAll, Block.partsAll] at hb
  | c :: rest, h =>
      (allReferTo_emit o hstack c h.1).append (allReferTo_emitAll o hstack rest h.2)

end

end Command

-- What a binding is called in blocks. Locals are not called by their names.
def Binding.RefersTo (K : Reference → Prop) : Binding → Prop
  | .globalVariable v => K (.variable v.name)
  | .globalList l => K (.list l.name)
  | .parameter p => K (.parameter p.name)
  | .constant _ | .localVariable _ | .localArray _ | .method _ => True

-- Whatever a name can stand for outside the scopes of a method may be referred to, and so may the
-- variable of its result, if it has one.
structure Context.Allows (o : Options) (K : Reference → Prop) (ctx : Context) (m : Option Method) :
    Prop where
  outer : ∀ x b, ctx.outer? m x = some b → b.RefersTo K
  result : ∀ m' ∈ m, m'.returnType.isSome → K (.variable (o.returnVariable m'.name))

-- A placeholder is only left where that is reported.
def Excuses (K : Reference → Prop) (ds : List Diagnostic) : Prop :=
  ∀ d ∈ ds, d.LeavesGap → K .nothing

theorem Excuses.append {a b : List Diagnostic} :
    Excuses K (a ++ b) ↔ Excuses K a ∧ Excuses K b := by
  simp only [Excuses, List.mem_append, or_imp, forall_and]

section Values

variable {o : Options} {ctx : Context} {t : ScopeTree}

theorem Context.Allows.resolve? (h : ctx.Allows o K t.method) (hr : ctx.Ready t) {x : String}
    {b : Binding} (hb : ctx.resolve? t x = some b) : b.RefersTo K := by
  rw [Context.resolve?_eq hr.inside, Option.or_eq_some_iff] at hb
  obtain hb | ⟨_, hb⟩ := hb
  · obtain ⟨l, _, rfl⟩ := Option.map_eq_some_iff.mp hb
    cases l <;> trivial
  · exact h.outer x b hb

variable (h : ctx.Allows o K t.method) (hr : ctx.Ready t)

include h hr

theorem Context.operand_refersTo (pending : Nat) (x : String) (loc : Location)
    (hd : Excuses K (ctx.problems t x loc)) : (ctx.operand t pending x).RefersTo K := by
  rw [Context.operand]
  rw [Context.problems] at hd
  cases hb : ctx.resolve? t x with
  | none =>
      rw [hb] at hd
      exact hd _ (List.mem_singleton_self _) (.inl rfl)
  | some b =>
      have hname := h.resolve? hr hb
      rw [hb] at hd
      cases b with
      | constant c => trivial
      | globalVariable v => exact hname
      | globalList l => exact hname
      | parameter p => exact hname
      | localVariable v =>
          by_cases hv : v.slots = 1
          · simp only [hv, if_true]
            trivial
          · simp only [hv, if_false] at hd ⊢
            exact hd _ (List.mem_singleton_self _) (.inr rfl)
      | localArray a => exact hd _ (List.mem_singleton_self _) (.inr rfl)
      | method m => exact hd _ (List.mem_singleton_self _) (.inr rfl)

theorem Expr.operand_refersTo (pending : Nat) {e : Expr} (hd : Excuses K (e.problems ctx t)) :
    (e.operand ctx t pending).RefersTo K := by
  induction e with
  | literal value loc => trivial
  | lookup x loc => exact Context.operand_refersTo h hr pending x loc hd
  | item x index loc ih =>
      rw [Expr.operand]
      rw [Expr.problems] at hd
      cases hb : ctx.resolve? t x with
      | none =>
          rw [hb] at hd
          exact hd _ (List.mem_singleton_self _) (.inl rfl)
      | some b =>
          have hname := h.resolve? hr hb
          rw [hb] at hd
          cases b with
          | globalList l => exact ⟨hname, ih hd⟩
          | localArray a => exact ih hd
          | constant _ | globalVariable _ | parameter _ | localVariable _ | method _ =>
              exact hd _ (List.mem_singleton_self _) (.inr rfl)
  | unary op operand loc ih => exact ih hd
  | binary op left right loc ihl ihr =>
      rw [Expr.problems, Excuses.append] at hd
      exact ⟨ihl hd.1, ihr hd.2⟩

theorem Local.pushes_refersTo (l : Local) (hd : Excuses K (l.problems ctx t)) :
    Command.AllReferTo K (l.pushes ctx t) := by
  rw [Command.allReferTo_iff]
  intro c hc
  obtain ⟨k, hk, rfl⟩ := List.mem_map.mp hc
  rw [List.mem_range] at hk
  change (l.initial ctx t k).RefersTo K
  obtain v | a := l
  · rw [Local.initial]
    rw [Local.problems] at hd
    cases hv : v.value with
    | none => trivial
    | some e =>
        -- the variable has a slot, so that its initializer was looked at
        have hslots : v.slots ≠ 0 := by
          intro hzero
          simp [Local.slots, hzero] at hk
        simp only [hv, hslots, if_false, Excuses.append] at hd
        exact e.operand_refersTo h hr k hd.2
  · have hk : k < a.items.length := hk
    have hitem : a.items[k]? = some a.items[k] := List.getElem?_eq_getElem hk
    rw [Local.initial]
    simp only [hitem]
    refine Expr.operand_refersTo h hr k fun d hd' => hd d ?_
    exact List.mem_flatMap.mpr ⟨a.items[k], List.getElem_mem hk, List.mem_append_right _ hd'⟩

theorem Assignment.amount_refersTo (loc : Location) {a : Assignment}
    (hstep : ∀ e, a ≠ .set e ∧ a ≠ .join e) (hd : Excuses K (a.problems ctx t)) :
    (a.amount ctx t loc).RefersTo K := by
  cases a with
  | set e => exact absurd rfl (hstep e).1
  | join e => exact absurd rfl (hstep e).2
  | add e => exact e.operand_refersTo h hr 0 hd
  | subtract e => exact e.operand_refersTo h hr 0 hd
  | increment => trivial
  | decrement => trivial

theorem Assignment.result_refersTo (loc : Location) (a : Assignment) {current : Operand}
    (hcurrent : current.RefersTo K) (hd : Excuses K (a.problems ctx t)) :
    (a.result ctx t loc current).RefersTo K := by
  cases a with
  | set e => exact e.operand_refersTo h hr 0 hd
  | join e => exact ⟨hcurrent, e.operand_refersTo h hr 0 hd⟩
  | add _ | subtract _ | increment | decrement =>
      exact ⟨hcurrent, Assignment.amount_refersTo h hr loc (by simp) hd⟩

theorem Assignment.code_refersTo (loc : Location) (x : String) (a : Assignment)
    (hd : Excuses K (a.allProblems ctx t loc x)) :
    Command.AllReferTo K (a.code ctx t loc x) := by
  rw [Assignment.code]
  rw [Assignment.allProblems] at hd
  cases hb : ctx.resolve? t x with
  | none => trivial
  | some b =>
      rw [hb] at hd
      cases b with
      | localVariable v =>
          by_cases hv : v.slots = 1
          · simp only [hv, if_true, Excuses.append] at hd ⊢
            exact ⟨a.result_refersTo h hr loc trivial hd.2, trivial⟩
          · simp only [hv, if_false]
            trivial
      | globalVariable v =>
          have hname : K (.variable v.name) := h.resolve? hr hb
          rw [Excuses.append] at hd
          have hcurrent : (Operand.global v.name).RefersTo K := hname
          have hresult := a.result_refersTo h hr loc hcurrent hd.2
          have hamount := a.amount_refersTo (K := K) h hr loc
          cases a with
          | set e => exact ⟨⟨hname, hresult⟩, trivial⟩
          | join e => exact ⟨⟨hname, hresult⟩, trivial⟩
          | add _ | subtract _ | increment | decrement =>
              exact ⟨⟨hname, hamount (by simp) hd.2⟩, trivial⟩
      | constant _ | globalList _ | parameter _ | localArray _ | method _ => trivial

theorem storeResult_refersTo (value : Option Expr) (hd : Excuses K (resultProblems ctx t value)) :
    Command.AllReferTo K (storeResult o ctx t value) := by
  unfold storeResult
  unfold resultProblems at hd
  cases value with
  | none => trivial
  | some e =>
      cases hm : t.method with
      | none => trivial
      | some m =>
          cases htype : m.returnType with
          | none =>
              simp only [htype]
              trivial
          | some expected =>
              simp only [hm, htype, Excuses.append] at hd ⊢
              have hname := h.result m hm (by simp [htype])
              exact ⟨⟨hname, e.operand_refersTo h hr 0 hd.2⟩, trivial⟩

end Values

theorem ScopeTree.releases_refersTo (t : ScopeTree) (i : Nat) :
    Command.AllReferTo K (t.releases i) := by
  rw [Command.allReferTo_iff]
  intro c hc
  obtain ⟨l, _, rfl⟩ := List.mem_map.mp hc
  trivial

-- What is planned refers only to what `K` allows.
def Plan.RefersTo (K : Reference → Prop) (p : Plan) : Prop :=
  Excuses K p.problems → Command.AllReferTo K p.code

theorem Plan.nested_refersTo {o : Options} {ctx : Context} {t : ScopeTree}
    (h : ctx.Allows o K t.method) (hr : ctx.Ready t) {body : Context → ScopeTree → Plan}
    (hbody : ∀ {ctx : Context} {t : ScopeTree}, ctx.Allows o K t.method → ctx.Ready t →
      (body ctx t).RefersTo K) : (Plan.nested ctx t body).RefersTo K := by
  intro hd
  have hinner : (ctx.withScope t.size).Allows o K (t.child ctx.here).method :=
    ScopeTree.child_method t ctx.here ▸ ⟨h.outer, h.result⟩
  exact Command.allReferTo_append.mpr
    ⟨hbody hinner hr.child hd, ScopeTree.releases_refersTo _ _⟩

theorem Local.plan_refersTo {o : Options} {ctx : Context} {t : ScopeTree}
    (h : ctx.Allows o K t.method) (hr : ctx.Ready t) (l : Local) : (l.plan ctx t).RefersTo K := by
  rw [Local.plan]
  split
  · exact fun hd => l.pushes_refersTo h hr hd
  · exact fun _ => trivial
  · exact fun _ => trivial

-- The scopes that something planned leaves behind are still those of the same method.
theorem Context.Allows.after {o : Options} {ctx : Context} {t : ScopeTree}
    (h : ctx.Allows o K t.method) {p : Plan} (hp : p.Extends ctx t) :
    ctx.Allows o K p.scopes.method :=
  hp.grows.method_eq ▸ h

mutual

theorem Stmt.plan_refersTo (o : Options) {ctx : Context} {t : ScopeTree}
    (h : ctx.Allows o K t.method) (hr : ctx.Ready t) :
    ∀ s : Stmt, (s.plan o ctx t).RefersTo K
  | .declare l => l.plan_refersTo h hr
  | .assign x a loc => fun hd => a.code_refersTo h hr loc x hd
  | .repeatLoop inline count body _ => by
      have hbody := Plan.nested_refersTo h hr fun h hr => Stmt.planAll_refersTo o h hr body
      have hext := Plan.nested_extends hr fun hr => Stmt.planAll_extends o hr body
      rw [Stmt.plan]
      cases inline with
      | true =>
          intro hd
          rw [if_pos rfl, Excuses.append] at hd
          rw [if_pos rfl, Command.allReferTo_iff]
          intro c hc
          rw [List.eq_of_mem_replicate hc]
          exact hbody hd.1
      | false =>
          intro hd
          rw [if_neg Bool.false_ne_true, Excuses.append] at hd
          -- the count is compiled after the body
          have hcount := count.operand_refersTo (h.after hext) (hext.ready hr) 0 hd.2
          exact ⟨⟨hcount, hbody hd.1⟩, trivial⟩
  | .whileLoop condition body _ => by
      intro hd
      rw [Stmt.plan, Excuses.append] at hd
      have hbody := Plan.nested_refersTo h hr fun h hr => Stmt.planAll_refersTo o h hr body
      exact ⟨⟨condition.operand_refersTo h hr 0 hd.1, hbody hd.2⟩, trivial⟩
  | .forever body _ => fun hd =>
      ⟨Plan.nested_refersTo h hr (fun h hr => Stmt.planAll_refersTo o h hr body) hd, trivial⟩
  | .branch condition thenBody elseBody _ => by
      have hfirst := Plan.nested_refersTo h hr fun h hr => Stmt.planAll_refersTo o h hr thenBody
      have hext := Plan.nested_extends hr fun hr => Stmt.planAll_extends o hr thenBody
      have hsecond := Plan.nested_refersTo (h.after hext) (hext.ready hr) fun h hr =>
        Stmt.planAll_refersTo o h hr elseBody
      rw [Stmt.plan]
      split
      · intro hd
        rw [Excuses.append] at hd
        exact ⟨⟨condition.operand_refersTo h hr 0 hd.1, hfirst hd.2⟩, trivial⟩
      · intro hd
        rw [Excuses.append, Excuses.append] at hd
        exact ⟨⟨condition.operand_refersTo h hr 0 hd.1, hfirst hd.2.1, hsecond hd.2.2⟩, trivial⟩
  | .switch _ cases _ => Stmt.planCases_refersTo o h hr cases
  | .ret value _ => by
      intro hd
      refine Command.allReferTo_append.mpr ⟨storeResult_refersTo h hr value hd,
        Command.allReferTo_append.mpr ⟨?_, trivial, trivial⟩⟩
      rw [Command.allReferTo_iff]
      intro c hc
      obtain ⟨i, _, hc⟩ := List.mem_flatMap.mp hc
      exact Command.allReferTo_iff.mp (ScopeTree.releases_refersTo t i) c hc
  | .scope body _ => fun hd =>
      ⟨Plan.nested_refersTo h hr (fun h hr => Stmt.planAll_refersTo o h hr body) hd, trivial⟩

theorem Stmt.planAll_refersTo (o : Options) {ctx : Context} {t : ScopeTree}
    (h : ctx.Allows o K t.method) (hr : ctx.Ready t) :
    ∀ body : List Stmt, (Stmt.planAll o ctx body t).RefersTo K
  | [] => fun _ => trivial
  | s :: rest => by
      intro hd
      rw [Stmt.planAll, Excuses.append] at hd
      have hext := Stmt.plan_extends o hr s
      exact Command.allReferTo_append.mpr ⟨Stmt.plan_refersTo o h hr s hd.1,
        Stmt.planAll_refersTo o (h.after hext) (hext.ready hr) rest hd.2⟩

theorem Stmt.planCases_refersTo (o : Options) {ctx : Context} {t : ScopeTree}
    (h : ctx.Allows o K t.method) (hr : ctx.Ready t) :
    ∀ cases : List Case, (Stmt.planCases o ctx cases t).RefersTo K
  | [] => fun _ => trivial
  | .mk conditions body isDefault loc :: rest => by
      have hbody := Plan.nested_refersTo h hr fun h hr => Stmt.planAll_refersTo o h hr body
      have hext := Plan.nested_extends hr fun hr => Stmt.planAll_extends o hr body
      have hrest := Stmt.planCases_refersTo o (h.after hext) (hext.ready hr) rest
      have hcondition (hd : Excuses K (conditions.flatMap fun e => e.problems ctx t)) :
          (Operand.conjunction loc (conditions.map fun e => e.operand ctx t 0)).RefersTo K := by
        refine Operand.refersTo_conjunction loc fun p hp => ?_
        obtain ⟨e, he, rfl⟩ := List.mem_map.mp hp
        exact e.operand_refersTo h hr 0 fun d hd' => hd d (List.mem_flatMap.mpr ⟨e, he, hd'⟩)
      rw [Stmt.planCases]
      split
      · exact fun hd => ⟨hbody hd, trivial⟩
      · split
        · intro hd
          rw [Excuses.append] at hd
          exact ⟨⟨hcondition hd.1, hbody hd.2⟩, trivial⟩
        · intro hd
          rw [Excuses.append, Excuses.append] at hd
          exact ⟨⟨hcondition hd.1, hbody hd.2.1, hrest hd.2.2⟩, trivial⟩

end

-- Everything that the blocks of a method refer to is allowed, if what its names stand for is, the
-- stack is, and a placeholder is where a problem is reported that leaves one.
theorem Method.plan_refersTo (o : Options) {ctx : Context} {m : Method}
    (h : ctx.Allows o K (some m)) (hstack : K (.list o.stackList))
    (hd : Excuses K (m.plan o ctx).problems) :
    Block.AllReferTo K (Command.emitAll o (m.plan o ctx).code) := by
  have hr := ctx.ready_createRoot m
  have hroot : (ctx.withScope 0).Allows o K (some m) := ⟨h.outer, h.result⟩
  have hbody := Stmt.planAll_refersTo o hroot hr m.body hd
  exact Command.allReferTo_emitAll o hstack _
    (Command.allReferTo_append.mpr ⟨hbody, ScopeTree.releases_refersTo _ _⟩)

end SpriteCompiler
