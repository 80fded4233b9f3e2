import SpriteCompiler.Proofs.Code.Plan

namespace SpriteCompiler

namespace Context

-- Contexts in which every name stands for the same thing.
structure Alike (ctx ctx' : Context) : Prop where
  scope_eq : ctx.scope = ctx'.scope
  sprite_eq : ctx.sprite = ctx'.sprite
  declarations_eq : ctx.project.declarations = ctx'.project.declarations

namespace Alike

variable {ctx ctx' : Context}

theorem withScope (h : ctx.Alike ctx') (id : Nat) :
    (ctx.withScope id).Alike (ctx'.withScope id) :=
  ⟨rfl, h.sprite_eq, h.declarations_eq⟩

theorem here_eq (h : ctx.Alike ctx') : ctx.here = ctx'.here := by
  rw [here, here, h.scope_eq]

theorem resolve?_eq (h : ctx.Alike ctx') : ctx.resolve? = ctx'.resolve? := by
  funext t x
  simp only [resolve?, outer?, Project.find?, h.scope_eq, h.sprite_eq, h.declarations_eq]

theorem names_eq (h : ctx.Alike ctx') : ctx.names = ctx'.names := by
  funext t
  simp only [names, outerNames, Project.names, h.scope_eq, h.sprite_eq, h.declarations_eq]

theorem notDefined_eq (h : ctx.Alike ctx') : ctx.notDefined = ctx'.notDefined := by
  funext t x loc
  rw [notDefined, notDefined, h.names_eq]

theorem operand_eq (h : ctx.Alike ctx') : ctx.operand = ctx'.operand := by
  funext t pending x
  simp only [operand, h.resolve?_eq, h.here_eq]

theorem problems_eq (h : ctx.Alike ctx') : ctx.problems = ctx'.problems := by
  funext t x loc
  simp only [problems, h.resolve?_eq, h.notDefined_eq]

end Alike

end Context

section Parts

variable {ctx ctx' : Context} (h : ctx.Alike ctx')

include h

theorem Expr.typeAt_alike (e : Expr) (t : ScopeTree) :
    e.typeAt ctx t = e.typeAt ctx' t := by
  cases e <;> simp only [typeAt, h.resolve?_eq]

theorem Expr.operand_alike (e : Expr) (t : ScopeTree) (pending : Nat) :
    e.operand ctx t pending = e.operand ctx' t pending := by
  induction e with
  | literal value loc => rfl
  | lookup x loc => simp only [operand, h.operand_eq]
  | item x index loc ih => simp only [operand, h.resolve?_eq, h.here_eq, ih]
  | unary op operand loc ih => simp only [Expr.operand, ih]
  | binary op left right loc ihl ihr => simp only [operand, ihl, ihr]

theorem Expr.problems_alike (e : Expr) (t : ScopeTree) :
    e.problems ctx t = e.problems ctx' t := by
  induction e with
  | literal value loc => rfl
  | lookup x loc => simp only [problems, h.problems_eq]
  | item x index loc ih => simp only [problems, h.resolve?_eq, h.notDefined_eq, ih]
  | unary op operand loc ih => simp only [problems, ih]
  | binary op left right loc ihl ihr => simp only [problems, ihl, ihr]

theorem Expr.mismatches_alike (e : Expr) (t : ScopeTree) (expected : ValueType) :
    e.mismatches ctx t expected = e.mismatches ctx' t expected := by
  simp only [mismatches, e.typeAt_alike h t]

theorem Local.plan_alike (l : Local) (t : ScopeTree) : l.plan ctx t = l.plan ctx' t := by
  have hinitial : l.initial ctx t = l.initial ctx' t := by
    funext slot
    simp only [initial, Expr.operand_alike h]
  have hproblems : l.problems ctx t = l.problems ctx' t := by
    simp only [problems, Expr.mismatches_alike h, Expr.problems_alike h]
  simp only [plan, pushes, h.here_eq, hinitial, hproblems]

theorem Assignment.code_alike (a : Assignment) (t : ScopeTree) (loc : Location) (x : String) :
    a.code ctx t loc x = a.code ctx' t loc x := by
  have hamount : a.amount ctx t loc = a.amount ctx' t loc := by
    cases a <;> simp only [amount, Expr.operand_alike h]
  have hresult (current : Operand) :
      a.result ctx t loc current = a.result ctx' t loc current := by
    cases a <;> simp only [result, amount, Expr.operand_alike h]
  simp only [code, h.resolve?_eq, h.here_eq, hamount, hresult]

theorem Assignment.allProblems_alike (a : Assignment) (t : ScopeTree) (loc : Location)
    (x : String) : a.allProblems ctx t loc x = a.allProblems ctx' t loc x := by
  simp only [allProblems, problems, h.resolve?_eq, h.notDefined_eq, Expr.problems_alike h]

end Parts

-- Options that differ at most in how values are computed and where locals are kept.
structure Options.SamePlans (o o' : Options) : Prop where
  returnStem_eq : o.returnStem = o'.returnStem
  repetitions_eq : o.maxInlineRepetitions = o'.maxInlineRepetitions

theorem Options.SamePlans.refl (o : Options) : o.SamePlans o :=
  ⟨rfl, rfl⟩

section Statements

variable {o o' : Options}

theorem Expr.copies_samePlans (ho : o.SamePlans o') (count : Expr) :
    count.copies o = count.copies o' := by
  simp only [copies, ho.repetitions_eq]

theorem Expr.countProblems_samePlans (ho : o.SamePlans o') (count : Expr) :
    count.countProblems o = count.countProblems o' := by
  simp only [countProblems, ho.repetitions_eq]

theorem storeResult_alike (ho : o.SamePlans o') {ctx ctx' : Context} (h : ctx.Alike ctx')
    (t : ScopeTree) (value : Option Expr) :
    storeResult o ctx t value = storeResult o' ctx' t value := by
  simp only [storeResult, Options.returnVariable, ho.returnStem_eq, Expr.operand_alike h]

theorem resultProblems_alike {ctx ctx' : Context} (h : ctx.Alike ctx') (t : ScopeTree)
    (value : Option Expr) : resultProblems ctx t value = resultProblems ctx' t value := by
  simp only [resultProblems, Expr.mismatches_alike h, Expr.problems_alike h]

theorem Plan.nested_alike {ctx ctx' : Context} (h : ctx.Alike ctx') (t : ScopeTree)
    {body body' : Context → ScopeTree → Plan}
    (hbody : ∀ {ctx ctx' : Context}, ctx.Alike ctx' → ∀ t, body ctx t = body' ctx' t) :
    Plan.nested ctx t body = Plan.nested ctx' t body' := by
  simp only [nested, hbody (h.withScope t.size), h.here_eq]

mutual

theorem Stmt.plan_alike (ho : o.SamePlans o') {ctx ctx' : Context} (h : ctx.Alike ctx') :
    ∀ (s : Stmt) (t : ScopeTree), s.plan o ctx t = s.plan o' ctx' t
  | .declare l, t => l.plan_alike h t
  | .assign x a loc, t => by
      simp only [Stmt.plan, a.code_alike h, a.allProblems_alike h]
  | .repeatLoop inline count body _, t => by
      have hbody := Plan.nested_alike h t fun h t => Stmt.planAll_alike ho h body t
      simp only [Stmt.plan, hbody, count.copies_samePlans ho, count.countProblems_samePlans ho,
        count.operand_alike h, count.problems_alike h]
  | .whileLoop condition body _, t => by
      have hbody := Plan.nested_alike h t fun h t => Stmt.planAll_alike ho h body t
      simp only [Stmt.plan, hbody, condition.operand_alike h, condition.problems_alike h]
  | .forever body _, t => by
      have hbody := Plan.nested_alike h t fun h t => Stmt.planAll_alike ho h body t
      simp only [Stmt.plan, hbody]
  | .branch condition thenBody elseBody _, t => by
      have hthen := Plan.nested_alike h t fun h t => Stmt.planAll_alike ho h thenBody t
      have helse (t : ScopeTree) :=
        Plan.nested_alike h t fun h t => Stmt.planAll_alike ho h elseBody t
      simp only [Stmt.plan, hthen, helse, condition.operand_alike h, condition.problems_alike h]
  | .switch _ cases _, t => Stmt.planCases_alike ho h cases t
  | .ret value _, t => by
      simp only [Stmt.plan, storeResult_alike ho h, resultProblems_alike h, h.here_eq]
  | .scope body _, t => by
      have hbody := Plan.nested_alike h t fun h t => Stmt.planAll_alike ho h body t
      simp only [Stmt.plan, hbody]

theorem Stmt.planAll_alike (ho : o.SamePlans o') {ctx ctx' : Context} (h : ctx.Alike ctx') :
    ∀ (body : List Stmt) (t : ScopeTree), Stmt.planAll o ctx body t = Stmt.planAll o' ctx' body t
  | [], _ => rfl
  | s :: rest, t => by
      simp only [Stmt.planAll, Stmt.plan_alike ho h s, Stmt.planAll_alike ho h rest]

theorem Stmt.planCases_alike (ho : o.SamePlans o') {ctx ctx' : Context} (h : ctx.Alike ctx') :
    ∀ (cases : List Case) (t : ScopeTree),
      Stmt.planCases o ctx cases t = Stmt.planCases o' ctx' cases t
  | [], _ => rfl
  | .mk conditions body isDefault loc :: rest, t => by
      have hbody := Plan.nested_alike h t fun h t => Stmt.planAll_alike ho h body t
      simp only [Stmt.planCases, hbody, Stmt.planCases_alike ho h rest, Expr.operand_alike h,
        Expr.problems_alike h]

end

theorem Method.plan_alike (ho : o.SamePlans o') {ctx ctx' : Context}
    (hsprite : ctx.sprite = ctx'.sprite)
    (hproject : ctx.project.declarations = ctx'.project.declarations) (m : Method) :
    m.plan o ctx = m.plan o' ctx' := by
  have halike (root : Nat) : (ctx.withScope root).Alike (ctx'.withScope root) :=
    ⟨rfl, hsprite, hproject⟩
  simp only [plan, Stmt.planAll_alike ho (halike _)]

end Statements

end SpriteCompiler
