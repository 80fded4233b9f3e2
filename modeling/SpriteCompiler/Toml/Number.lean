import SpriteCompiler.Number.Binary
import SpriteCompiler.Number.Nearest
import SpriteCompiler.Toml.Token

namespace SpriteCompiler.Toml

-- Groups of digits in a base, with single underscores between them.
def groups? (base : Nat) (cs : List Char) : Option (List Nat) :=
  let groups := cs.splitOn '_'
  if groups.any List.isEmpty then none
  else groups.flatten.mapM fun d => (hexValue? d).bind fun v => if v < base then some v else none

def digits? (base : Nat) (cs : List Char) : Option Nat :=
  (groups? base cs).map fun ds => ds.foldl (fun n d => n * base + d) 0

-- Decimal digits do not begin with a zero, except for zero itself.
def decimal? (cs : List Char) : Option Nat :=
  if cs.head? = some '0' ∧ cs.length > 1 then none else digits? 10 cs

-- A whole number of 64 bits. Only decimal ones have a sign.
def integer? (cs : List Char) : Option Int := do
  let n : Int ← match cs with
    | '0' :: 'x' :: ds => (digits? 16 ds).map Int.ofNat
    | '0' :: 'o' :: ds => (digits? 8 ds).map Int.ofNat
    | '0' :: 'b' :: ds => (digits? 2 ds).map Int.ofNat
    | '+' :: ds => (decimal? ds).map Int.ofNat
    | '-' :: ds => (decimal? ds).map fun n => -(n : Int)
    | ds => (decimal? ds).map Int.ofNat
  if Int64.minValue.toInt ≤ n ∧ n ≤ Int64.maxValue.toInt then some n else none

-- The sign of a number, true for a minus, and what comes after it.
def signed : List Char → Bool × List Char
  | '+' :: rest => (false, rest)
  | '-' :: rest => (true, rest)
  | cs => (false, cs)

-- The power of ten after a mark, which here may begin with zeros.
def power? : List Char → Option Int
  | [] => none
  | mark :: rest =>
    let (negative, ds) := signed rest
    if mark = 'e' ∨ mark = 'E' then
      (digits? 10 ds).map fun n => if negative then -(n : Int) else n
    else none

-- A decimal with a fraction, a power of ten or both, as a whole number and a power of ten.
def scientific? (cs : List Char) : Option (Nat × Int) := do
  let isInside (c : Char) : Bool := c.isDigit || c == '_'
  let whole ← decimal? (cs.takeWhile isInside)
  match cs.dropWhile isInside with
  | '.' :: rest =>
    let places ← groups? 10 (rest.takeWhile isInside)
    let power ← match rest.dropWhile isInside with
      | [] => some 0
      | rest => power? rest
    some (places.foldl (fun n d => n * 10 + d) whole, power - places.length)
  | rest => (power? rest).map fun power => (whole, power)

-- A floating point number. Infinity has to be written as such; of the numbers beyond the largest
-- double only the negative ones are taken for it.
def float? (cs : List Char) : Option Float :=
  let (negative, digits) := signed cs
  match String.ofList digits with
  | "inf" => some (if negative then -(1.0 / 0.0) else 1.0 / 0.0)
  | "nan" => some (0.0 / 0.0)
  | _ => do
    let (mantissa, exponent) ← scientific? digits
    let x := Number.nearest mantissa exponent
    if negative then some (-x) else if Number.isFinite x then some x else none

end SpriteCompiler.Toml
