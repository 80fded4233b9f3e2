import SpriteCompiler.Operator
import SpriteCompiler.Source.Location

namespace SpriteCompiler

inductive Expr where
  | literal (value : Literal) (loc : Location)
  -- a name used as a value
  | lookup (name : String) (loc : Location)
  -- an item of an array, counted from one
  | item (array : String) (index : Expr) (loc : Location)
  | unary (op : UnaryOp) (operand : Expr) (loc : Location)
  | binary (op : BinaryOp) (left right : Expr) (loc : Location)
  deriving DecidableEq

namespace Expr

def location : Expr → Location
  | .literal _ loc => loc
  | .lookup _ loc => loc
  | .item _ _ loc => loc
  | .unary _ _ loc => loc
  | .binary _ _ _ loc => loc

def literal? : Expr → Option Literal
  | .literal value _ => some value
  | _ => none

end Expr

end SpriteCompiler
