import SpriteCompiler.Program.Encode
import SpriteCompiler.Json.Reader

namespace SpriteCompiler

def Span.ofJson? (j : Json) : Option Span := do
  let r ← j.record? ["start", "end"]
  some ⟨← (← r.field? "start").word?, ← (← r.field? "end").word?⟩

def Location.ofJson? (j : Json) : Option Location := do
  let r ← j.record? ["file", "span"]
  some ⟨← (← r.field? "file").word?, ← Span.ofJson? (← r.field? "span")⟩

-- Most records have their place in the field `span`.
def Location.fieldOf? (r : Json) : Option Location := do
  Location.ofJson? (← r.field? "span")

def ValueType.ofTag? : String → Option ValueType
  | "Number" => some .number
  | "String" => some .text
  | "Boolean" => some .boolean
  | "Object" => some .object
  | _ => none

def ValueType.ofJson? (j : Json) : Option ValueType := do
  ValueType.ofTag? (← j.tag?)

def Literal.ofJson? (j : Json) : Option Literal := do
  match ← j.variant? with
  | ("Number", v) => some (.number (← v.float?))
  | ("Text", v) => some (.text (← v.str?))
  | ("Boolean", v) => some (.boolean (← v.bool?))
  | _ => none

def UnaryOp.ofTag? : String → Option UnaryOp
  | "Minus" => some .minus
  | "Not" => some .not
  | _ => none

def UnaryOp.ofJson? (j : Json) : Option UnaryOp := do
  UnaryOp.ofTag? (← j.tag?)

def BinaryOp.ofTag? : String → Option BinaryOp
  | "Add" => some .add
  | "Subtract" => some .subtract
  | "Multiply" => some .multiply
  | "Divide" => some .divide
  | "Modulo" => some .modulo
  | "Concat" => some .concat
  | "Equal" => some .equal
  | "NotEqual" => some .notEqual
  | "Less" => some .less
  | "Greater" => some .greater
  | "LessEqual" => some .lessEqual
  | "GreaterEqual" => some .greaterEqual
  | "And" => some .and
  | "Or" => some .or
  | _ => none

def BinaryOp.ofJson? (j : Json) : Option BinaryOp := do
  BinaryOp.ofTag? (← j.tag?)

-- The fields of each kind of expression, in order.
def Expr.fieldNames : String → List String
  | "Literal" => ["value", "span"]
  | "Lookup" => ["name", "span"]
  | "ArrayLookup" => ["array", "index", "span"]
  | "Unary" => ["operator", "operand", "span"]
  | "Compound" => ["operator", "left", "right", "span"]
  | _ => []

-- An expression nested no deeper than `fuel`.
def Expr.decode : Nat → Json → Option Expr
  | 0, _ => none
  | fuel + 1, j => do
    let (tag, payload) ← j.variant?
    let r ← payload.record? (fieldNames tag)
    let loc ← Location.fieldOf? r
    match tag with
    | "Literal" => some (.literal (← Literal.ofJson? (← r.field? "value")) loc)
    | "Lookup" => some (.lookup (← (← r.field? "name").str?) loc)
    | "ArrayLookup" =>
      some (.item (← (← r.field? "array").str?) (← Expr.decode fuel (← r.field? "index")) loc)
    | "Unary" =>
      some (.unary (← UnaryOp.ofJson? (← r.field? "operator"))
        (← Expr.decode fuel (← r.field? "operand")) loc)
    | "Compound" =>
      some (.binary (← BinaryOp.ofJson? (← r.field? "operator"))
        (← Expr.decode fuel (← r.field? "left")) (← Expr.decode fuel (← r.field? "right")) loc)
    | _ => none

-- A value is never nested deeper than its own depth.
def Expr.ofJson? (j : Json) : Option Expr :=
  Expr.decode j.depth j

def LocalVariable.ofJson? (j : Json) : Option LocalVariable := do
  let r ← j.record? ["name", "data_type", "value", "slots", "span"]
  some {
    name := ← (← r.field? "name").str?
    type := ← ValueType.ofJson? (← r.field? "data_type")
    value := ← r.optional? "value" Expr.ofJson?
    slots := ← (← r.field? "slots").word?
    loc := ← Location.fieldOf? r }

def LocalArray.ofJson? (j : Json) : Option LocalArray := do
  let r ← j.record? ["name", "data_type", "items", "span"]
  some {
    name := ← (← r.field? "name").str?
    type := ← ValueType.ofJson? (← r.field? "data_type")
    items := ← (← r.field? "items").list? Expr.ofJson?
    loc := ← Location.fieldOf? r }

def Local.ofJson? (j : Json) : Option Local := do
  match ← j.variant? with
  | ("Variable", r) => some (.variable (← LocalVariable.ofJson? r))
  | ("Array", r) => some (.array (← LocalArray.ofJson? r))
  | _ => none

def Assignment.ofJson? (j : Json) : Option Assignment :=
  match j.tag? with
  | some "PlusPlus" => some .increment
  | some "MinusMinus" => some .decrement
  | _ => do
    match ← j.variant? with
    | ("Equals", e) => some (.set (← Expr.ofJson? e))
    | ("AddEquals", e) => some (.add (← Expr.ofJson? e))
    | ("MinusEquals", e) => some (.subtract (← Expr.ofJson? e))
    | ("DotEquals", e) => some (.join (← Expr.ofJson? e))
    | _ => none

-- A case, given how to read the statements of its body.
def Case.decode (stmt : Json → Option Stmt) (j : Json) : Option Case := do
  let r ← j.record? ["conditions", "body", "is_default", "span"]
  some (.mk (← (← r.field? "conditions").list? Expr.ofJson?) (← (← r.field? "body").list? stmt)
    (← (← r.field? "is_default").bool?) (← Location.fieldOf? r))

-- The fields of each kind of statement, in order. A declaration is no record but a local.
def Stmt.fieldNames : String → List String
  | "Assign" => ["variable", "assignment", "span"]
  | "Repeat" => ["inline", "iterations", "body", "span"]
  | "While" => ["condition", "body", "span"]
  | "Forever" => ["body", "span"]
  | "If" => ["condition", "then_body", "else_body", "span"]
  | "Switch" => ["subject", "blocks", "span"]
  | "Return" => ["value", "span"]
  | "Scope" => ["body", "span"]
  | _ => []

-- A statement nested no deeper than `fuel`.
def Stmt.decode : Nat → Json → Option Stmt
  | 0, _ => none
  | fuel + 1, j => do
    let (tag, payload) ← j.variant?
    let r ← payload.record? (fieldNames tag)
    match tag with
    | "Declare" => some (.declare (← Local.ofJson? payload))
    | "Assign" =>
      some (.assign (← (← r.field? "variable").str?) (← Assignment.ofJson? (← r.field? "assignment"))
        (← Location.fieldOf? r))
    | "Repeat" =>
      some (.repeatLoop (← (← r.field? "inline").bool?) (← Expr.ofJson? (← r.field? "iterations"))
        (← (← r.field? "body").list? (Stmt.decode fuel)) (← Location.fieldOf? r))
    | "While" =>
      some (.whileLoop (← Expr.ofJson? (← r.field? "condition"))
        (← (← r.field? "body").list? (Stmt.decode fuel)) (← Location.fieldOf? r))
    | "Forever" =>
      some (.forever (← (← r.field? "body").list? (Stmt.decode fuel)) (← Location.fieldOf? r))
    | "If" =>
      some (.branch (← Expr.ofJson? (← r.field? "condition"))
        (← (← r.field? "then_body").list? (Stmt.decode fuel))
        (← (← r.field? "else_body").list? (Stmt.decode fuel)) (← Location.fieldOf? r))
    | "Switch" =>
      some (.switch (← Expr.ofJson? (← r.field? "subject"))
        (← (← r.field? "blocks").list? (Case.decode (Stmt.decode fuel))) (← Location.fieldOf? r))
    | "Return" => some (.ret (← r.optional? "value" Expr.ofJson?) (← Location.fieldOf? r))
    | "Scope" =>
      some (.scope (← (← r.field? "body").list? (Stmt.decode fuel)) (← Location.fieldOf? r))
    | _ => none

def Stmt.ofJson? (j : Json) : Option Stmt :=
  Stmt.decode j.depth j

def Parameter.ofJson? (j : Json) : Option Parameter := do
  let r ← j.record? ["name", "data_type", "span"]
  some {
    name := ← (← r.field? "name").str?
    type := ← ValueType.ofJson? (← r.field? "data_type")
    loc := ← Location.fieldOf? r }

def Method.ofJson? (j : Json) : Option Method := do
  let r ← j.record? ["name", "return_type", "params", "body", "inline", "atomic", "is_unsafe",
    "span"]
  some {
    name := ← (← r.field? "name").str?
    returnType := ← r.optional? "return_type" ValueType.ofJson?
    params := ← (← r.field? "params").list? Parameter.ofJson?
    body := ← (← r.field? "body").list? Stmt.ofJson?
    inline := ← (← r.field? "inline").bool?
    atomic := ← (← r.field? "atomic").bool?
    isUnsafe := ← (← r.field? "is_unsafe").bool?
    loc := ← Location.fieldOf? r }

def Constant.ofJson? (j : Json) : Option Constant := do
  let r ← j.record? ["name", "data_type", "value", "span"]
  some {
    name := ← (← r.field? "name").str?
    type := ← ValueType.ofJson? (← r.field? "data_type")
    value := ← Literal.ofJson? (← r.field? "value")
    loc := ← Location.fieldOf? r }

def GlobalVariable.ofJson? (j : Json) : Option GlobalVariable := do
  let r ← j.record? ["name", "data_type", "value", "span"]
  some {
    name := ← (← r.field? "name").str?
    type := ← ValueType.ofJson? (← r.field? "data_type")
    value := ← r.optional? "value" Literal.ofJson?
    loc := ← Location.fieldOf? r }

def GlobalList.ofJson? (j : Json) : Option GlobalList := do
  let r ← j.record? ["name", "data_type", "items", "span"]
  some {
    name := ← (← r.field? "name").str?
    type := ← ValueType.ofJson? (← r.field? "data_type")
    items := ← (← r.field? "items").list? Literal.ofJson?
    loc := ← Location.fieldOf? r }

def Global.ofJson? (j : Json) : Option Global := do
  match ← j.variant? with
  | ("Constant", r) => some (.constant (← Constant.ofJson? r))
  | ("Variable", r) => some (.variable (← GlobalVariable.ofJson? r))
  | ("Array", r) => some (.list (← GlobalList.ofJson? r))
  | _ => none

def Sprite.ofJson? (j : Json) : Option Sprite := do
  let r ← j.record? ["name", "declarations", "methods", "span"]
  some {
    name := ← (← r.field? "name").str?
    declarations := ← (← r.field? "declarations").list? Global.ofJson?
    methods := ← (← r.field? "methods").list? Method.ofJson?
    loc := ← Location.fieldOf? r }

def Project.ofJson? (j : Json) : Option Project := do
  let r ← j.record? ["name", "declarations", "sprites"]
  some {
    name := ← (← r.field? "name").str?
    declarations := ← (← r.field? "declarations").list? Global.ofJson?
    sprites := ← (← r.field? "sprites").list? Sprite.ofJson? }

-- The text of a project is not read if it is nested deeper than this.
def Project.maxDepth : Nat := 127

def Project.ofText? (text : String) : Option Project := do
  let j ← Json.parse? text
  if j.depth ≤ maxDepth then Project.ofJson? j else none

-- The text of a project is read as a project with the same text.
def Project.readsBack (p : Project) : Bool :=
  let text := p.toJson.render
  match Project.ofText? text with
  | some q => q.toJson.render == text
  | none => false

end SpriteCompiler
