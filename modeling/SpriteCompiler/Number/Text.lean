import SpriteCompiler.Number.Shortest

namespace SpriteCompiler.Number

def natText (n : Nat) : String :=
  String.ofList (Nat.toDigits 10 n)

def intText (n : Int) : String :=
  if n < 0 then "-" ++ natText n.natAbs else natText n.natAbs

private def zeros (n : Nat) : List Char :=
  List.replicate n '0'

private def sign (negative : Bool) : String :=
  if negative then "-" else ""

-- Digits and exponent written out positionally. With `pointZero` a whole number gets a fraction.
def Decimal.positional (d : Decimal) (pointZero : Bool) : String :=
  let digits := Nat.toDigits 10 d.digits
  if 0 ≤ d.exponent then
    String.ofList (digits ++ zeros d.exponent.toNat) ++ (if pointZero then ".0" else "")
  else
    let places := (-d.exponent).toNat
    if places < digits.length then
      let whole := digits.length - places
      String.ofList (digits.take whole ++ '.' :: digits.drop whole)
    else
      String.ofList ('0' :: '.' :: zeros (places - digits.length) ++ digits)

-- One digit before the point and the power of ten after it, its sign always written.
def Decimal.scientific (d : Decimal) : String :=
  let digits := Nat.toDigits 10 d.digits
  let power := d.exponent + (digits.length - 1 : Nat)
  let fraction := if digits.length ≤ 1 then [] else '.' :: digits.drop 1
  String.ofList (digits.take 1 ++ fraction) ++ "e" ++ (if power < 0 then "-" else "+") ++
    natText power.natAbs

-- The exponent of the leading digit.
def Decimal.leading (d : Decimal) : Int :=
  d.exponent + ((Nat.toDigits 10 d.digits).length - 1 : Nat)

-- A number as the blocks show it: whole numbers below `10 ^ 15` as integers, everything else with
-- the shortest digits that read back, a tie between two of them going up.
def text (x : Float) : String :=
  match smallInt? x with
  | some n => intText n
  | none =>
    match kind x with
    | .nan => "NaN"
    | .infinite negative => sign negative ++ "inf"
    | .finite b => sign b.negative ++ (b.shortest .up).positional false

-- A number as interchange text: positional while the leading digit's exponent is from -5 to 15,
-- and with an exponent beyond. Values that are not finite have no such text.
def floatText? (x : Float) : Option String :=
  match kind x with
  | .nan => none
  | .infinite _ => none
  | .finite b =>
    if b.mantissa = 0 then some (sign b.negative ++ "0.0")
    else
      let d := b.shortest .toEven
      let body := if -5 ≤ d.leading ∧ d.leading ≤ 15 then d.positional true else d.scientific
      some (sign b.negative ++ body)

end SpriteCompiler.Number
