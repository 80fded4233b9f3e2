namespace SpriteCompiler.Number

-- The double nearest to `mantissa * 10 ^ exponent`, which is infinite for decimals beyond the
-- largest double. Powers beyond any double's reach are cut off, which changes nothing but the work.
def nearest (mantissa : Nat) (exponent : Int) : Float :=
  let reach : Nat := 400 + (Nat.log2 mantissa + 1)
  if mantissa = 0 then 0.0
  else if 0 ≤ exponent then Float.ofScientific mantissa false (min exponent.toNat reach)
  else Float.ofScientific mantissa true (min (-exponent).toNat reach)

end SpriteCompiler.Number
