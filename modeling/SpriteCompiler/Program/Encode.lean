import SpriteCompiler.Program.Project
import SpriteCompiler.Json.Decode

namespace SpriteCompiler

def Json.tagged (tag : String) (payload : Json) : Json :=
  .obj [(tag, payload)]

def Span.toJson (s : Span) : Json :=
  .obj [("start", .word s.start), ("end", .word s.stop)]

def Location.toJson (l : Location) : Json :=
  .obj [("file", .word l.file), ("span", l.span.toJson)]

def ValueType.tag : ValueType → String
  | .number => "Number"
  | .text => "String"
  | .boolean => "Boolean"
  | .object => "Object"

def ValueType.toJson (t : ValueType) : Json :=
  .str t.tag

def Literal.toJson : Literal → Json
  | .number x => .tagged "Number" (.float x)
  | .text s => .tagged "Text" (.str s)
  | .boolean b => .tagged "Boolean" (.bool b)

def UnaryOp.tag : UnaryOp → String
  | .minus => "Minus"
  | .not => "Not"

def BinaryOp.tag : BinaryOp → String
  | .add => "Add"
  | .subtract => "Subtract"
  | .multiply => "Multiply"
  | .divide => "Divide"
  | .modulo => "Modulo"
  | .concat => "Concat"
  | .equal => "Equal"
  | .notEqual => "NotEqual"
  | .less => "Less"
  | .greater => "Greater"
  | .lessEqual => "LessEqual"
  | .greaterEqual => "GreaterEqual"
  | .and => "And"
  | .or => "Or"

def Expr.toJson : Expr → Json
  | .literal value loc => .tagged "Literal" (.obj [("value", value.toJson), ("span", loc.toJson)])
  | .lookup name loc => .tagged "Lookup" (.obj [("name", .str name), ("span", loc.toJson)])
  | .item array index loc =>
    .tagged "ArrayLookup"
      (.obj [("array", .str array), ("index", index.toJson), ("span", loc.toJson)])
  | .unary op operand loc =>
    .tagged "Unary"
      (.obj [("operator", .str op.tag), ("operand", operand.toJson), ("span", loc.toJson)])
  | .binary op left right loc =>
    .tagged "Compound"
      (.obj [("operator", .str op.tag), ("left", left.toJson), ("right", right.toJson),
        ("span", loc.toJson)])

def LocalVariable.toJson (d : LocalVariable) : Json :=
  .obj [("name", .str d.name), ("data_type", d.type.toJson), ("value", .ofOption Expr.toJson d.value),
    ("slots", .word d.slots), ("span", d.loc.toJson)]

def LocalArray.toJson (d : LocalArray) : Json :=
  .obj [("name", .str d.name), ("data_type", d.type.toJson), ("items", .arr (d.items.map Expr.toJson)),
    ("span", d.loc.toJson)]

def Local.toJson : Local → Json
  | .variable d => .tagged "Variable" d.toJson
  | .array d => .tagged "Array" d.toJson

def Assignment.toJson : Assignment → Json
  | .set e => .tagged "Equals" e.toJson
  | .add e => .tagged "AddEquals" e.toJson
  | .subtract e => .tagged "MinusEquals" e.toJson
  | .join e => .tagged "DotEquals" e.toJson
  | .increment => .str "PlusPlus"
  | .decrement => .str "MinusMinus"

mutual

def Stmt.toJson : Stmt → Json
  | .declare d => .tagged "Declare" d.toJson
  | .assign target assignment loc =>
    .tagged "Assign"
      (.obj [("variable", .str target), ("assignment", assignment.toJson), ("span", loc.toJson)])
  | .repeatLoop inline count body loc =>
    .tagged "Repeat"
      (.obj [("inline", .bool inline), ("iterations", count.toJson), ("body", .arr (Stmt.listToJson body)),
        ("span", loc.toJson)])
  | .whileLoop condition body loc =>
    .tagged "While"
      (.obj [("condition", condition.toJson), ("body", .arr (Stmt.listToJson body)),
        ("span", loc.toJson)])
  | .forever body loc =>
    .tagged "Forever" (.obj [("body", .arr (Stmt.listToJson body)), ("span", loc.toJson)])
  | .branch condition thenBody elseBody loc =>
    .tagged "If"
      (.obj [("condition", condition.toJson), ("then_body", .arr (Stmt.listToJson thenBody)),
        ("else_body", .arr (Stmt.listToJson elseBody)), ("span", loc.toJson)])
  | .switch subject cases loc =>
    .tagged "Switch"
      (.obj [("subject", subject.toJson), ("blocks", .arr (Case.listToJson cases)),
        ("span", loc.toJson)])
  | .ret value loc =>
    .tagged "Return" (.obj [("value", .ofOption Expr.toJson value), ("span", loc.toJson)])
  | .scope body loc =>
    .tagged "Scope" (.obj [("body", .arr (Stmt.listToJson body)), ("span", loc.toJson)])

def Stmt.listToJson : List Stmt → List Json
  | [] => []
  | s :: rest => s.toJson :: Stmt.listToJson rest

def Case.toJson : Case → Json
  | .mk conditions body isDefault loc =>
    .obj [("conditions", .arr (conditions.map Expr.toJson)), ("body", .arr (Stmt.listToJson body)),
      ("is_default", .bool isDefault), ("span", loc.toJson)]

def Case.listToJson : List Case → List Json
  | [] => []
  | c :: rest => c.toJson :: Case.listToJson rest

end

def Parameter.toJson (d : Parameter) : Json :=
  .obj [("name", .str d.name), ("data_type", d.type.toJson), ("span", d.loc.toJson)]

def Method.toJson (m : Method) : Json :=
  .obj [("name", .str m.name), ("return_type", .ofOption ValueType.toJson m.returnType),
    ("params", .arr (m.params.map Parameter.toJson)), ("body", .arr (Stmt.listToJson m.body)),
    ("inline", .bool m.inline), ("atomic", .bool m.atomic), ("is_unsafe", .bool m.isUnsafe),
    ("span", m.loc.toJson)]

def Constant.toJson (d : Constant) : Json :=
  .obj [("name", .str d.name), ("data_type", d.type.toJson), ("value", d.value.toJson),
    ("span", d.loc.toJson)]

def GlobalVariable.toJson (d : GlobalVariable) : Json :=
  .obj [("name", .str d.name), ("data_type", d.type.toJson),
    ("value", .ofOption Literal.toJson d.value), ("span", d.loc.toJson)]

def GlobalList.toJson (d : GlobalList) : Json :=
  .obj [("name", .str d.name), ("data_type", d.type.toJson),
    ("items", .arr (d.items.map Literal.toJson)), ("span", d.loc.toJson)]

def Global.toJson : Global → Json
  | .constant d => .tagged "Constant" d.toJson
  | .variable d => .tagged "Variable" d.toJson
  | .list d => .tagged "Array" d.toJson

def Sprite.toJson (s : Sprite) : Json :=
  .obj [("name", .str s.name), ("declarations", .arr (s.declarations.map Global.toJson)),
    ("methods", .arr (s.methods.map Method.toJson)), ("span", s.loc.toJson)]

def Project.toJson (p : Project) : Json :=
  .obj [("name", .str p.name), ("declarations", .arr (p.declarations.map Global.toJson)),
    ("sprites", .arr (p.sprites.map Sprite.toJson))]

end SpriteCompiler
