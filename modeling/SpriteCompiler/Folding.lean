import SpriteCompiler.Operator
import SpriteCompiler.Source.Location

namespace SpriteCompiler

-- Why an operator was not applied.
inductive FoldError where
  | divisionByZero (loc : Location)
  | invalidBinary (left : ValueType) (op : BinaryOp) (right : ValueType) (loc : Location)
  | invalidUnary (op : UnaryOp) (operand : ValueType) (loc : Location)
  deriving DecidableEq

namespace FoldError

def location : FoldError → Location
  | .divisionByZero loc => loc
  | .invalidBinary _ _ _ loc => loc
  | .invalidUnary _ _ loc => loc

def message : FoldError → String
  | .divisionByZero _ => "division by zero"
  | .invalidBinary left op right _ =>
    "invalid binary operation: " ++ left.keyword ++ " " ++ op.symbol ++ " " ++ right.keyword
  | .invalidUnary op operand _ => "invalid unary operation: " ++ op.symbol ++ " " ++ operand.keyword

end FoldError

-- A negated number is zero minus the number, so that zero stays positive.
def UnaryOp.fold (op : UnaryOp) (operand : Literal) (loc : Location) : Except FoldError Literal :=
  match op, operand with
  | .minus, .number x => .ok (.number (0.0 - x))
  | .not, .boolean b => .ok (.boolean !b)
  | _, _ => .error (.invalidUnary op operand.type loc)

-- The remainder takes the sign of the divisor.
def Number.modulo (x y : Float) : Float :=
  x - y * Number.floor (x / y)

-- Operators on two numbers. Neither conjunction nor concatenation is one of them.
def BinaryOp.foldNumbers? (op : BinaryOp) (x y : Float) : Option Literal :=
  match op with
  | .add => some (.number (x + y))
  | .subtract => some (.number (x - y))
  | .multiply => some (.number (x * y))
  | .divide => some (.number (x / y))
  | .modulo => some (.number (Number.modulo x y))
  | .equal => some (.boolean (x == y))
  | .notEqual => some (.boolean (x != y))
  | .less => some (.boolean (x < y))
  | .greater => some (.boolean (x > y))
  | .lessEqual => some (.boolean (x ≤ y))
  | .greaterEqual => some (.boolean (x ≥ y))
  | .concat | .and | .or => none

def BinaryOp.foldBooleans? (op : BinaryOp) (a b : Bool) : Option Literal :=
  match op with
  | .equal => some (.boolean (a == b))
  | .notEqual => some (.boolean (a != b))
  | .and => some (.boolean (a && b))
  | .or => some (.boolean (a || b))
  | _ => none

-- Any two literals are joined as text; the other operators want two numbers or two booleans. What a
-- running program could compute differently is refused: it compares texts without regard to case, and
-- it has a result for a division by zero.
def BinaryOp.fold (op : BinaryOp) (left right : Literal) (loc : Location) :
    Except FoldError Literal :=
  let invalid := FoldError.invalidBinary left.type op right.type loc
  match op, left, right with
  | .concat, _, _ => .ok (.text (left.display ++ right.display))
  | _, .number x, .number y =>
    if (op = .divide ∨ op = .modulo) ∧ y == 0.0 then .error (.divisionByZero loc)
    else (op.foldNumbers? x y).elim (.error invalid) .ok
  | _, .boolean a, .boolean b => (op.foldBooleans? a b).elim (.error invalid) .ok
  | _, _, _ => .error invalid

end SpriteCompiler
