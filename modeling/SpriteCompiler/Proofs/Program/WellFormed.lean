import SpriteCompiler.Proofs.Program.Everywhere

namespace SpriteCompiler

structure Environment where
  -- the locals of each scope, innermost scope first
  frames : List (List Local)
  params : List Parameter
  declarations : List Global
  methods : List Method
  globals : List Global
  returnType : Option ValueType

namespace Environment

-- What a name can stand for besides locals.
def outer (E : Environment) : List Binding :=
  E.params.map .parameter ++ E.declarations.map Global.binding ++ E.methods.map .method ++
    E.globals.map Global.binding

def bindings (E : Environment) : List Binding :=
  E.frames.flatten.map Local.binding ++ E.outer

def find? (E : Environment) (x : String) : Option Binding :=
  E.bindings.find? (·.name == x)

-- Inside a new scope.
def enter (E : Environment) : Environment :=
  { E with frames := [] :: E.frames }

-- After a statement.
def after (E : Environment) (s : Stmt) : Environment :=
  { E with frames := s.declares E.frames }

-- The name is not declared in the innermost scope.
def Free (E : Environment) (x : String) : Prop :=
  ∀ f ∈ E.frames.head?, ∀ l ∈ f, l.name ≠ x

end Environment

namespace Binding

-- It can be used as a value.
inductive IsValue : Binding → Prop where
  | constant (d : Constant) : IsValue (.constant d)
  | globalVariable (d : GlobalVariable) : IsValue (.globalVariable d)
  | globalList (d : GlobalList) : IsValue (.globalList d)
  | parameter (d : Parameter) : IsValue (.parameter d)
  | localVariable (d : LocalVariable) (h : d.slots = 1) : IsValue (.localVariable d)

-- It has items.
inductive IsArray : Binding → Prop where
  | globalList (d : GlobalList) : IsArray (.globalList d)
  | localArray (d : LocalArray) : IsArray (.localArray d)

-- It can be assigned to.
inductive IsVariable : Binding → Prop where
  | globalVariable (d : GlobalVariable) : IsVariable (.globalVariable d)
  | localVariable (d : LocalVariable) (h : d.slots = 1) : IsVariable (.localVariable d)

end Binding

namespace Expr

-- The type that an expression has without being evaluated. A list used as a value is a text.
def typeIn (E : Environment) : Expr → ValueType
  | .literal value _ => value.type
  | .lookup x _ =>
    match E.find? x with
    | some (.globalList _) => .text
    | some b => b.type
    | none => .object
  | .item x _ _ => (E.find? x).elim .object Binding.type
  | .unary op _ _ => op.resultType
  | .binary op _ _ _ => op.resultType

inductive WellFormed (E : Environment) : Expr → Prop where
  | literal (value : Literal) (loc : Location) : WellFormed E (.literal value loc)
  | lookup {x : String} {b : Binding} (loc : Location) (hx : E.find? x = some b)
      (hb : b.IsValue) : WellFormed E (.lookup x loc)
  | item {x : String} {b : Binding} {index : Expr} (loc : Location) (hx : E.find? x = some b)
      (hb : b.IsArray) (hindex : WellFormed E index) : WellFormed E (.item x index loc)
  | unary {operand : Expr} (op : UnaryOp) (loc : Location) (h : WellFormed E operand) :
      WellFormed E (.unary op operand loc)
  | binary {left right : Expr} (op : BinaryOp) (loc : Location) (hl : WellFormed E left)
      (hr : WellFormed E right) : WellFormed E (.binary op left right loc)

-- The count of an inline loop: a number that is written down, and whose floor is not a number, not
-- positive or within the limit.
def IsInlineCount (limit : Nat) (count : Expr) : Prop :=
  ∃ x loc, count = .literal (.number x) loc ∧
    match Number.kind x with
    | .nan => True
    | .infinite negative => negative = true
    | .finite b => b.floor ≤ 0 ∨ b.floor ≤ limit

end Expr

-- The initializer of a variable without slots is only asked for its type.
inductive Local.WellFormed (E : Environment) : Local → Prop where
  | variable (v : LocalVariable) (hfree : E.Free v.name)
      (htype : ∀ e ∈ v.value, v.type.accepts (e.typeIn E))
      (hvalue : v.slots ≠ 0 → ∀ e ∈ v.value, e.WellFormed E) : WellFormed E (.variable v)
  | array (a : LocalArray) (hfree : E.Free a.name)
      (hitems : ∀ e ∈ a.items, a.type.accepts (e.typeIn E) ∧ e.WellFormed E) :
      WellFormed E (.array a)

-- Amounts are added to numbers, to booleans, which count as one or zero, and to what may be anything.
inductive ValueType.IsAmount : ValueType → Prop where
  | number : IsAmount .number
  | boolean : IsAmount .boolean
  | object : IsAmount .object

inductive ValueType.IsJoinable : ValueType → Prop where
  | text : IsJoinable .text
  | object : IsJoinable .object

-- The types of targets that go with an operator.
inductive AssignOp.Admits : AssignOp → ValueType → Prop where
  | set (type : ValueType) : Admits .set type
  | add {type : ValueType} (h : type.IsAmount) : Admits .add type
  | subtract {type : ValueType} (h : type.IsAmount) : Admits .subtract type
  | increment {type : ValueType} (h : type.IsAmount) : Admits .increment type
  | decrement {type : ValueType} (h : type.IsAmount) : Admits .decrement type
  | join {type : ValueType} (h : type.IsJoinable) : Admits .join type

-- The target is a variable whose type the operator admits.
structure Assignment.WellFormed (E : Environment) (x : String) (a : Assignment) : Prop where
  target : ∃ b, E.find? x = some b ∧ b.IsVariable ∧ a.op.Admits b.type
  operand : ∀ e ∈ a.operand?, e.WellFormed E

mutual

inductive Stmt.WellFormed (limit : Nat) : Environment → Stmt → Prop where
  | declare {E l} (h : l.WellFormed E) : WellFormed limit E (.declare l)
  | assign {E x a} (loc) (h : a.WellFormed E x) : WellFormed limit E (.assign x a loc)
  | repeatLoop {E count body} (loc) (hcount : count.WellFormed E)
      (hbody : Stmt.AllWellFormed limit E.enter body) :
      WellFormed limit E (.repeatLoop false count body loc)
  | inlineLoop {E count body} (loc) (hcount : count.IsInlineCount limit)
      (hbody : Stmt.AllWellFormed limit E.enter body) :
      WellFormed limit E (.repeatLoop true count body loc)
  | whileLoop {E condition body} (loc) (hcondition : condition.WellFormed E)
      (hbody : Stmt.AllWellFormed limit E.enter body) :
      WellFormed limit E (.whileLoop condition body loc)
  | forever {E body} (loc) (hbody : Stmt.AllWellFormed limit E.enter body) :
      WellFormed limit E (.forever body loc)
  | branch {E condition thenBody elseBody} (loc) (hcondition : condition.WellFormed E)
      (hthen : Stmt.AllWellFormed limit E.enter thenBody)
      (helse : Stmt.AllWellFormed limit E.enter elseBody) :
      WellFormed limit E (.branch condition thenBody elseBody loc)
  -- the subject is not compiled
  | switch {E cases} (subject loc) (hcases : Stmt.CasesWellFormed limit E cases) :
      WellFormed limit E (.switch subject cases loc)
  | ret {E} (loc) : WellFormed limit E (.ret none loc)
  | retValue {E e type} (loc) (htype : E.returnType = some type)
      (hfits : type.accepts (e.typeIn E)) (he : e.WellFormed E) :
      WellFormed limit E (.ret (some e) loc)
  | scope {E body} (loc) (hbody : Stmt.AllWellFormed limit E.enter body) :
      WellFormed limit E (.scope body loc)

inductive Stmt.AllWellFormed (limit : Nat) : Environment → List Stmt → Prop where
  | nil {E} : AllWellFormed limit E []
  | cons {E s rest} (hs : Stmt.WellFormed limit E s)
      (hrest : Stmt.AllWellFormed limit (E.after s) rest) : AllWellFormed limit E (s :: rest)

inductive Stmt.CasesWellFormed (limit : Nat) : Environment → List Case → Prop where
  | nil {E} : CasesWellFormed limit E []
  -- nothing is asked of the conditions of a default at the end
  | default {E body} (conditions loc) (hbody : Stmt.AllWellFormed limit E.enter body) :
      CasesWellFormed limit E [.mk conditions body true loc]
  | cons {E conditions body rest} (isDefault loc)
      (hconditions : ∀ e ∈ conditions, e.WellFormed E)
      (hbody : Stmt.AllWellFormed limit E.enter body)
      (hrest : Stmt.CasesWellFormed limit E rest) :
      CasesWellFormed limit E (.mk conditions body isDefault loc :: rest)

end

-- Where the body of a method stands.
def Context.environment (ctx : Context) (m : Method) : Environment where
  frames := [[]]
  params := m.params
  declarations := ctx.sprite.elim [] (·.declarations)
  methods := ctx.sprite.elim [] (·.methods)
  globals := ctx.project.declarations
  returnType := m.returnType

def Method.WellFormed (o : Options) (ctx : Context) (m : Method) : Prop :=
  Stmt.AllWellFormed o.maxInlineRepetitions.toNat (ctx.environment m) m.body

end SpriteCompiler
