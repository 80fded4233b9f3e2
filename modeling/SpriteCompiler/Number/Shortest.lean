import SpriteCompiler.Number.Binary

namespace SpriteCompiler.Number

-- The number `digits * 10 ^ exponent`.
structure Decimal where
  digits : Nat
  exponent : Int
  deriving DecidableEq

-- Which way a value goes that lies halfway between two shortest decimals.
inductive Tie where
  | up
  | toEven
  deriving DecidableEq

-- Compares `a * 10 ^ i` with `n * 2 ^ j`, each side multiplied until no exponent is negative.
def compareScaled (a : Nat) (i : Int) (n : Nat) (j : Int) : Ordering :=
  compare (a * Nat.pow 10 i.toNat * Nat.pow 2 (-j).toNat)
    (n * Nat.pow 2 j.toNat * Nat.pow 10 (-i).toNat)

-- The decimal lies among the reals that round to the value: at most halfway to either neighbour,
-- and exactly halfway only for an even mantissa, since ties are read to even.
def Binary.readsBack (b : Binary) (d : Decimal) : Bool :=
  let low := compareScaled d.digits d.exponent
    (if b.narrowBelow then 4 * b.mantissa - 1 else 4 * b.mantissa - 2) (b.exponent - 2)
  let high := compareScaled d.digits d.exponent (4 * b.mantissa + 2) (b.exponent - 2)
  let ends := b.mantissa % 2 == 0
  (low == .gt || (ends && low == .eq)) && (high == .lt || (ends && high == .eq))

-- The whole number of steps of `10 ^ grid` below the magnitude.
def Binary.stepsBelow (b : Binary) (grid : Int) : Nat :=
  (b.mantissa * Nat.pow 2 b.exponent.toNat * Nat.pow 10 (-grid).toNat) /
    (Nat.pow 2 (-b.exponent).toNat * Nat.pow 10 grid.toNat)

-- The least `k` from `start` on with the magnitude below `10 ^ k`.
def Binary.scaleFrom (b : Binary) : Nat → Int → Int
  | 0, k => k
  | fuel + 1, k =>
    if compareScaled 1 k b.mantissa b.exponent == .gt then k else scaleFrom b fuel (k + 1)

-- The number of digits before the decimal point. The binary logarithm times 0.30103 is at most a
-- few units off, so the search starts below it.
def Binary.scale (b : Binary) : Int :=
  b.scaleFrom 16 (((b.mantissa.log2 : Int) + b.exponent) * 30103 / 100000 - 4)

-- The better of the value's two neighbours on the grid `10 ^ grid`, if one of them reads back.
def Binary.onGrid? (b : Binary) (tie : Tie) (grid : Int) : Option Decimal :=
  let n := b.stepsBelow grid
  let below : Decimal := ⟨n, grid⟩
  let above : Decimal := ⟨n + 1, grid⟩
  match b.readsBack below, b.readsBack above with
  | false, false => none
  | true, false => some below
  | false, true => some above
  | true, true =>
    -- Twice the value against the sum of the neighbours.
    match compareScaled (2 * n + 1) grid (2 * b.mantissa) b.exponent with
    | .gt => some below
    | .lt => some above
    | .eq =>
      match tie with
      | .up => some above
      | .toEven => some (if n % 2 = 0 then below else above)

-- The exact value, which is a decimal because a power of two divides a power of ten.
def Binary.exact (b : Binary) : Decimal :=
  if 0 ≤ b.exponent then ⟨b.mantissa * Nat.pow 2 b.exponent.toNat, 0⟩
  else ⟨b.mantissa * Nat.pow 5 (-b.exponent).toNat, b.exponent⟩

def Decimal.stripZeros : Nat → Decimal → Decimal
  | 0, d => d
  | fuel + 1, d =>
    if d.digits ≠ 0 ∧ d.digits % 10 = 0 then stripZeros fuel ⟨d.digits / 10, d.exponent + 1⟩ else d

-- The shortest decimal of a nonzero magnitude. Seventeen digits suffice for every double; the
-- exact value stands behind them so that the result reads back in any case.
def Binary.shortest (b : Binary) (tie : Tie) : Decimal :=
  let k := b.scale
  let found := (List.range 17).findSome? fun (n : Nat) => b.onGrid? tie (k - 1 - (n : Int))
  (found.getD b.exact).stripZeros 18

end SpriteCompiler.Number
