import SpriteCompiler.Number.Binary

namespace SpriteCompiler

inductive Unrolling where
  | times (count : Nat)
  | tooMany
  deriving DecidableEq

-- The floor of the count decides. No body is left of a count that is not positive, or not a number.
def unrolling (limit : Nat) (count : Float) : Unrolling :=
  match Number.kind count with
  | .nan => .times 0
  | .infinite negative => if negative then .times 0 else .tooMany
  | .finite b => if (limit : Int) < b.floor then .tooMany else .times b.floor.toNat

end SpriteCompiler
