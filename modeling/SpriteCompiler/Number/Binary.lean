namespace SpriteCompiler.Number

-- A finite double, read off its bits: the magnitude is `mantissa * 2 ^ exponent`.
structure Binary where
  negative : Bool
  mantissa : Nat
  exponent : Int
  -- The gap to the next smaller magnitude is half the gap to the next larger one. That is so just
  -- above a power of two, except where the exponent has already reached its least value.
  narrowBelow : Bool
  deriving DecidableEq

inductive Kind where
  | nan
  | infinite (negative : Bool)
  | finite (value : Binary)
  deriving DecidableEq

def isNegative (x : Float) : Bool :=
  x.toBits >>> 63 == 1

-- An all-ones exponent field marks the infinities and NaN, an all-zero one the subnormal numbers,
-- whose mantissa has no implicit leading bit.
def kind (x : Float) : Kind :=
  let field := ((x.toBits >>> 52) &&& 0x7FF).toNat
  let fraction := (x.toBits &&& 0xFFFFFFFFFFFFF).toNat
  if field = 0x7FF then
    if fraction = 0 then .infinite (isNegative x) else .nan
  else if field = 0 then
    .finite ⟨isNegative x, fraction, -1074, false⟩
  else
    .finite ⟨isNegative x, 0x10000000000000 + fraction, (field : Int) - 1075, fraction == 0 && field > 1⟩

def isFinite (x : Float) : Bool :=
  match kind x with
  | .finite _ => true
  | _ => false

namespace Binary

def signedMantissa (b : Binary) : Int :=
  if b.negative then -(b.mantissa : Int) else b.mantissa

-- The greatest integer that is not above the value. The divisor is positive, so integer division
-- rounds down.
def floor (b : Binary) : Int :=
  if 0 ≤ b.exponent then b.signedMantissa * (Nat.pow 2 b.exponent.toNat : Int)
  else b.signedMantissa / (Nat.pow 2 (-b.exponent).toNat : Int)

def isIntegral (b : Binary) : Bool :=
  0 ≤ b.exponent || b.mantissa % Nat.pow 2 (-b.exponent).toNat == 0

end Binary

-- The integer a number is written as, for whole numbers of less than sixteen digits. Both zeros
-- are written as the integer zero.
def smallInt? (x : Float) : Option Int :=
  match kind x with
  | .finite b =>
    if b.isIntegral && b.floor.natAbs < 1000000000000000 then some b.floor else none
  | _ => none

-- The greatest whole number that is not above `x`. A double with a nonnegative exponent is whole
-- already; any other floor is below `2 ^ 53` in magnitude and so is a double again. Negative zero
-- keeps its sign.
def floor (x : Float) : Float :=
  match kind x with
  | .finite b =>
    if 0 ≤ b.exponent then x
    else if b.floor = 0 ∧ b.negative then -0.0
    else Float.ofInt b.floor
  | _ => x

end SpriteCompiler.Number
