import SpriteCompiler.Block.Basic
import SpriteCompiler.Folding
import SpriteCompiler.Options

namespace SpriteCompiler

def UnaryOp.foldParam? (op : UnaryOp) (options : Options) (operand : Param) (loc : Location) :
    Option Param :=
  if options.foldConstants then
    operand.literal?.bind fun value => ((op.fold value loc).toOption).map .literal
  else none

def BinaryOp.foldParams? (op : BinaryOp) (options : Options) (left right : Param) (loc : Location) :
    Option Param :=
  if options.foldConstants then
    left.literal?.bind fun l => right.literal?.bind fun r => ((op.fold l r loc).toOption).map .literal
  else none

-- The block that negates a number subtracts it from zero.
def UnaryOp.block (op : UnaryOp) (operand : Param) : Param :=
  match op with
  | .minus => .block (.make .subtract [.number 0.0, operand])
  | .not => .block (.make .not [operand])

def UnaryOp.apply (op : UnaryOp) (options : Options) (operand : Param) (loc : Location) : Param :=
  (op.foldParam? options operand loc).getD (op.block operand)

-- The instruction of an operator. Three comparisons have none and use that of their opposite.
def BinaryOp.opcode : BinaryOp → Opcode
  | .add => .add
  | .subtract => .subtract
  | .multiply => .multiply
  | .divide => .divide
  | .modulo => .modulo
  | .concat => .concat
  | .equal | .notEqual => .equal
  | .less | .greaterEqual => .lessThan
  | .greater | .lessEqual => .greaterThan
  | .and => .and
  | .or => .or

theorem BinaryOp.arity_opcode (op : BinaryOp) : op.opcode.arity = 2 := by
  cases op <;> rfl

-- The result of the instruction is turned around.
def BinaryOp.isOpposite : BinaryOp → Bool
  | .notEqual | .lessEqual | .greaterEqual => true
  | _ => false

def BinaryOp.block (op : BinaryOp) (left right : Param) : Param :=
  let direct := Param.block (.make op.opcode [left, right] op.arity_opcode.symm)
  if op.isOpposite then .block (.make .not [direct]) else direct

def BinaryOp.apply (op : BinaryOp) (options : Options) (left right : Param) (loc : Location) : Param :=
  (op.foldParams? options left right loc).getD (op.block left right)

end SpriteCompiler
