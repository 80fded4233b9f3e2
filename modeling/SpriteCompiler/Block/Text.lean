import SpriteCompiler.Block.Basic
import SpriteCompiler.Text.Quoted

namespace SpriteCompiler

mutual

def Block.display : Block → String
  | .mk opcode params => opcode.selector ++ "(" ++ ", ".intercalate (Param.displayAll params) ++ ")"

def Param.display : Param → String
  | .literal (.text s) => Text.listingQuoted s
  | .literal value => value.display
  | .block b => b.display
  | .body [] => "\x7b\x7d"
  | .body (b :: rest) => "\x7b " ++ "; ".intercalate (b.display :: Block.displayAll rest) ++ " \x7d"
  | .empty => "_"

def Block.displayAll : List Block → List String
  | [] => []
  | b :: rest => b.display :: Block.displayAll rest

def Param.displayAll : List Param → List String
  | [] => []
  | p :: rest => p.display :: Param.displayAll rest

end

end SpriteCompiler
