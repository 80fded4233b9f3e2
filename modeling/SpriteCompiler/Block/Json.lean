import SpriteCompiler.Block.Basic
import SpriteCompiler.Json.Basic

namespace SpriteCompiler

-- A stored value. Whole numbers of less than sixteen digits are written without a fraction.
def Literal.stored : Literal → Json
  | .number x =>
    match Number.smallInt? x with
    | some n => .int n
    | none => .float x
  | .text s => .str s
  | .boolean b => .bool b

mutual

def Block.toJson : Block → Json
  | .mk opcode params => .arr (.str opcode.selector :: Param.listToJson params)

def Param.toJson : Param → Json
  | .literal value => value.stored
  | .block b => b.toJson
  | .body [] => .null
  | .body (b :: rest) => .arr (b.toJson :: Block.listToJson rest)
  | .empty => .null

def Block.listToJson : List Block → List Json
  | [] => []
  | b :: rest => b.toJson :: Block.listToJson rest

def Param.listToJson : List Param → List Json
  | [] => []
  | p :: rest => p.toJson :: Param.listToJson rest

end

end SpriteCompiler
