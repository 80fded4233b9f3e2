import SpriteCompiler.Literal

namespace SpriteCompiler

inductive UnaryOp where
  | minus
  | not
  deriving DecidableEq

inductive BinaryOp where
  | add
  | subtract
  | multiply
  | divide
  | modulo
  | concat
  | equal
  | notEqual
  | less
  | greater
  | lessEqual
  | greaterEqual
  | and
  | or
  deriving DecidableEq

inductive AssignOp where
  | set
  | add
  | subtract
  | join
  | increment
  | decrement
  deriving DecidableEq

def UnaryOp.symbol : UnaryOp → String
  | .minus => "-"
  | .not => "!"

def BinaryOp.symbol : BinaryOp → String
  | .add => "+"
  | .subtract => "-"
  | .multiply => "*"
  | .divide => "/"
  | .modulo => "%"
  | .concat => "."
  | .equal => "=="
  | .notEqual => "!="
  | .less => "<"
  | .greater => ">"
  | .lessEqual => "<="
  | .greaterEqual => ">="
  | .and => "&&"
  | .or => "||"

def AssignOp.symbol : AssignOp → String
  | .set => "="
  | .add => "+="
  | .subtract => "-="
  | .join => ".="
  | .increment => "++"
  | .decrement => "--"

-- The type of what an operator gives, whatever its operands are.
def UnaryOp.resultType : UnaryOp → ValueType
  | .minus => .number
  | .not => .boolean

def BinaryOp.resultType : BinaryOp → ValueType
  | .add | .subtract | .multiply | .divide | .modulo => .number
  | .concat => .text
  | .equal | .notEqual | .less | .greater | .lessEqual | .greaterEqual | .and | .or => .boolean

-- The type an assignment operator wants of its target; a plain assignment wants none.
def AssignOp.targetType? : AssignOp → Option ValueType
  | .set => none
  | .add | .subtract | .increment | .decrement => some .number
  | .join => some .text

end SpriteCompiler
