import SpriteCompiler.Proofs.Code.Command

namespace SpriteCompiler

-- Compiling as plain functions of the scopes. That the steps of compiling agree with them is shown once;
-- everything about compiled code is then shown of the functions.

namespace Context

-- The innermost scope.
def here (ctx : Context) : Nat :=
  ctx.scope.getD 0

-- What a name stands for, and all names that stand for something, where a scope that is not there
-- has no locals.

def resolve? (ctx : Context) (t : ScopeTree) (x : String) : Option Binding :=
  ((ctx.scope.bind fun id => t.search? id x).map Local.binding).or (ctx.outer? t.method x)

def names (ctx : Context) (t : ScopeTree) : List String :=
  ctx.scope.elim [] (fun id => (t.latestFirst id).map Local.name) ++ ctx.outerNames t.method

-- A name used as a value.
def operand (ctx : Context) (t : ScopeTree) (pending : Nat) (x : String) : Operand :=
  match ctx.resolve? t x with
  | some (.constant c) => .literal c.value
  | some (.globalVariable v) => .global v.name
  | some (.globalList l) => .contents l.name
  | some (.parameter p) => .param p.name (Lower.inputKind p.type)
  | some (.localVariable v) => if v.slots = 1 then .cell ⟨t, ctx.here, x, pending⟩ else .empty
  | _ => .empty

def notDefined (ctx : Context) (t : ScopeTree) (x : String) (loc : Location) : Diagnostic :=
  .notDefined x loc (suggest x (ctx.names t))

def problems (ctx : Context) (t : ScopeTree) (x : String) (loc : Location) : List Diagnostic :=
  match ctx.resolve? t x with
  | none => [ctx.notDefined t x loc]
  | some (.localVariable v) => if v.slots = 1 then [] else [.notAValue x loc]
  | some (.localArray _) | some (.method _) => [.notAValue x loc]
  | some _ => []

end Context

namespace Expr

-- The static type of an expression.
def typeAt (ctx : Context) (t : ScopeTree) : Expr → ValueType
  | .literal value _ => value.type
  | .lookup x _ =>
    match ctx.resolve? t x with
    | some (.globalList _) => .text
    | some b => b.type
    | none => .object
  | .item x _ _ => (ctx.resolve? t x).elim .object Binding.type
  | .unary op _ _ => op.resultType
  | .binary op _ _ _ => op.resultType

def operand (ctx : Context) (t : ScopeTree) (pending : Nat) : Expr → Operand
  | .literal value _ => .literal value
  | .lookup x _ => ctx.operand t pending x
  | .item x index _ =>
    match ctx.resolve? t x with
    | some (.globalList l) => .item l.name (index.operand ctx t pending)
    | some (.localArray a) =>
      .element ⟨t, ctx.here, x, pending⟩ a.items.length (index.operand ctx t pending)
    | _ => .empty
  | .unary op operand loc => .unary op (operand.operand ctx t pending) loc
  | .binary op left right loc =>
    .binary op (left.operand ctx t pending) (right.operand ctx t pending) loc

def problems (ctx : Context) (t : ScopeTree) : Expr → List Diagnostic
  | .literal _ _ => []
  | .lookup x loc => ctx.problems t x loc
  | .item x index loc =>
    match ctx.resolve? t x with
    | none => [ctx.notDefined t x loc]
    | some (.globalList _) | some (.localArray _) => index.problems ctx t
    | some _ => [.notAnArray x loc]
  | .unary _ operand _ => operand.problems ctx t
  | .binary _ left right _ => left.problems ctx t ++ right.problems ctx t

-- An expression whose type does not fit.
def mismatches (ctx : Context) (t : ScopeTree) (expected : ValueType) (e : Expr) :
    List Diagnostic :=
  if expected.accepts (e.typeAt ctx t) then []
  else [.typeMismatch expected.keyword (e.typeAt ctx t).keyword e.location]

end Expr

namespace Local

-- What is pushed into a slot.
def initial (ctx : Context) (t : ScopeTree) (l : Local) (slot : Nat) : Operand :=
  match l with
  | .variable v =>
    match v.value with
    | some e => e.operand ctx t slot
    | none => .literal v.type.default
  | .array a =>
    match a.items[slot]? with
    | some e => e.operand ctx t slot
    | none => .empty

def pushes (ctx : Context) (t : ScopeTree) (l : Local) : List Command :=
  (List.range l.slots).map fun k => .push ⟨ctx.here, l, k⟩ (l.initial ctx t k)

-- The initializer of a variable without slots is checked for its type and no more.
def problems (ctx : Context) (t : ScopeTree) (l : Local) : List Diagnostic :=
  match l with
  | .variable v =>
    match v.value with
    | some e => e.mismatches ctx t v.type ++ if v.slots = 0 then [] else e.problems ctx t
    | none => []
  | .array a => a.items.flatMap fun e => e.mismatches ctx t a.type ++ e.problems ctx t

end Local

namespace AssignOp

def mismatches (op : AssignOp) (target : ValueType) (loc : Location) : List Diagnostic :=
  match op.targetType? with
  | none => []
  | some required =>
    if required.accepts target then [] else [.operatorMismatch op.symbol target.keyword loc]

end AssignOp

namespace Assignment

variable (ctx : Context) (t : ScopeTree) (loc : Location)

-- The amount by which a stepping operator changes its target.
def amount : Assignment → Operand
  | .add e => e.operand ctx t 0
  | .subtract e => .unary .minus (e.operand ctx t 0) loc
  | .increment => .literal (.number 1.0)
  | .decrement => .literal (.number (-1.0))
  | .set _ | .join _ => .empty

-- The new value of a target that reads as `current`.
def result (current : Operand) : Assignment → Operand
  | .set e => e.operand ctx t 0
  | .join e => .binary .concat current (e.operand ctx t 0) loc
  | a => .binary .add current (a.amount ctx t loc) loc

def problems (a : Assignment) : List Diagnostic :=
  a.operand?.elim [] fun e => e.problems ctx t

def code (x : String) (a : Assignment) : List Command :=
  match ctx.resolve? t x with
  | some (.localVariable v) =>
    if v.slots = 1 then
      let site : Site := ⟨t, ctx.here, x, 0⟩
      [.store site (a.result ctx t loc (.cell site))]
    else []
  | some (.globalVariable v) =>
    match a with
    | .set _ | .join _ => [.setVariable v.name (a.result ctx t loc (.global v.name))]
    | _ => [.changeVariable v.name (a.amount ctx t loc)]
  | _ => []

-- All that is wrong with an assignment to a name.
def allProblems (x : String) (a : Assignment) : List Diagnostic :=
  match ctx.resolve? t x with
  | none => [ctx.notDefined t x loc]
  | some (.localVariable v) =>
    if v.slots = 1 then a.op.mismatches v.type loc ++ a.problems ctx t else [.notAVariable x loc]
  | some (.globalVariable v) => a.op.mismatches v.type loc ++ a.problems ctx t
  | some b => [if b.isReadonly then .readonly x loc else .notAVariable x loc]

end Assignment

structure Plan where
  code : List Command
  scopes : ScopeTree
  problems : List Diagnostic

namespace Plan

-- A body in a new scope, whose locals are released at its end.
def nested (ctx : Context) (t : ScopeTree) (body : Context → ScopeTree → Plan) : Plan :=
  let inner := body (ctx.withScope t.size) (t.child ctx.here)
  { inner with code := inner.code ++ inner.scopes.releases t.size }

end Plan

-- A name that is taken in its scope is reported, and nothing is pushed.
def Local.plan (ctx : Context) (t : ScopeTree) (l : Local) : Plan :=
  match t.declare ctx.here l with
  | .ok (.ok (), t') => ⟨l.pushes ctx t, t', l.problems ctx t⟩
  | .ok (.error d, t') =>
    ⟨[], t', l.problems ctx t ++ [.duplicateDeclaration l.name l.location (some d.first)]⟩
  | .error _ => ⟨[], t, []⟩

-- Copies of the body of an inline loop.
def Expr.copies (o : Options) (count : Expr) : Option Nat :=
  match count.literal? with
  | some (.number x) =>
    match unrolling o.maxInlineRepetitions.toNat x with
    | .times n => some n
    | .tooMany => none
  | _ => none

def Expr.countProblems (o : Options) (count : Expr) : List Diagnostic :=
  match count.literal? with
  | some (.number x) =>
    match unrolling o.maxInlineRepetitions.toNat x with
    | .times _ => []
    | .tooMany => [.invalidArgument ("Loop cannot be inlined more than " ++
        Number.natText o.maxInlineRepetitions.toNat ++ " times") count.location]
  | _ => [.invalidArgument "Loop cannot be inlined" count.location]

section Return

variable (o : Options) (ctx : Context) (t : ScopeTree)

def storeResult (value : Option Expr) : List Command :=
  match value, t.method with
  | some e, some m =>
    match m.returnType with
    | some _ => [.setVariable (o.returnVariable m.name) (e.operand ctx t 0)]
    | none => []
  | _, _ => []

def resultProblems (value : Option Expr) : List Diagnostic :=
  match value, t.method with
  | some e, some m =>
    match m.returnType with
    | some expected => e.mismatches ctx t expected ++ e.problems ctx t
    | none => [.noReturnValue m.name e.location]
  | _, _ => []

end Return

mutual

def Stmt.plan (o : Options) (ctx : Context) : Stmt → ScopeTree → Plan
  | .declare l, t => l.plan ctx t
  | .assign x a loc, t => ⟨a.code ctx t loc x, t, a.allProblems ctx t loc x⟩
  | .repeatLoop inline count body _, t =>
    let p := Plan.nested ctx t fun inner t => Stmt.planAll o inner body t
    if inline then
      ⟨List.replicate ((count.copies o).getD 0) (.scope p.code), p.scopes,
        p.problems ++ count.countProblems o⟩
    else
      ⟨[.repeatTimes (count.operand ctx p.scopes 0) p.code], p.scopes,
        p.problems ++ count.problems ctx p.scopes⟩
  | .whileLoop condition body _, t =>
    let p := Plan.nested ctx t fun inner t => Stmt.planAll o inner body t
    ⟨[.repeatUntil (.unary .not (condition.operand ctx t 0) condition.location) p.code], p.scopes,
      condition.problems ctx t ++ p.problems⟩
  | .forever body _, t =>
    let p := Plan.nested ctx t fun inner t => Stmt.planAll o inner body t
    ⟨[.forever p.code], p.scopes, p.problems⟩
  | .branch condition thenBody elseBody _, t =>
    let p := Plan.nested ctx t fun inner t => Stmt.planAll o inner thenBody t
    if elseBody.isEmpty then
      ⟨[.ifThen (condition.operand ctx t 0) p.code], p.scopes,
        condition.problems ctx t ++ p.problems⟩
    else
      let q := Plan.nested ctx p.scopes fun inner t => Stmt.planAll o inner elseBody t
      ⟨[.ifThenElse (condition.operand ctx t 0) p.code q.code], q.scopes,
        condition.problems ctx t ++ (p.problems ++ q.problems)⟩
  | .switch _ cases _, t => Stmt.planCases o ctx cases t
  | .ret value _, t =>
    ⟨storeResult o ctx t value ++ ((t.lineage ctx.here).flatMap t.releases ++ [.stop]), t,
      resultProblems ctx t value⟩
  | .scope body _, t =>
    let p := Plan.nested ctx t fun inner t => Stmt.planAll o inner body t
    { p with code := [.scope p.code] }

def Stmt.planAll (o : Options) (ctx : Context) : List Stmt → ScopeTree → Plan
  | [], t => ⟨[], t, []⟩
  | s :: rest, t =>
    let p := Stmt.plan o ctx s t
    let q := Stmt.planAll o ctx rest p.scopes
    ⟨p.code ++ q.code, q.scopes, p.problems ++ q.problems⟩

def Stmt.planCases (o : Options) (ctx : Context) : List Case → ScopeTree → Plan
  | [], t => ⟨[], t, []⟩
  | .mk conditions body isDefault loc :: rest, t =>
    let p := Plan.nested ctx t fun inner t => Stmt.planAll o inner body t
    if rest.isEmpty && isDefault then { p with code := [.scope p.code] }
    else
      let condition := Operand.conjunction loc (conditions.map fun e => e.operand ctx t 0)
      let problems := conditions.flatMap fun e => e.problems ctx t
      if rest.isEmpty then ⟨[.ifThen condition p.code], p.scopes, problems ++ p.problems⟩
      else
        let q := Stmt.planCases o ctx rest p.scopes
        ⟨[.ifThenElse condition p.code q.code], q.scopes, problems ++ (p.problems ++ q.problems)⟩

end

-- The body of a method, compiled in its root scope.
def Method.plan (o : Options) (ctx : Context) (m : Method) : Plan :=
  let root := ScopeTree.createRoot { method := some m }
  let p := Stmt.planAll o (ctx.withScope root.1) m.body root.2
  { p with code := p.code ++ p.scopes.releases root.1 }

end SpriteCompiler
