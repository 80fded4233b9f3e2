namespace SpriteCompiler.Text

-- The rest of a row of distances for the source character `c`. The arguments are the distances
-- diagonally before, above and to the left of the entry being filled in; each entry is the cheapest
-- of a deletion, an insertion and a replacement.
def rowTail (c : Char) : List Char → Nat → List Nat → Nat → List Nat
  | t :: target, diagonal, above :: row, left =>
    let entry := min (min (above + 1) (left + 1)) (diagonal + if c = t then 0 else 1)
    entry :: rowTail c target above row entry
  | _, _, _, _ => []

-- The row after `row`, once the source has one character more.
def nextRow (target : List Char) (row : List Nat) (c : Char) : List Nat :=
  match row with
  | [] => []
  | first :: rest => (first + 1) :: rowTail c target first rest (first + 1)

-- The distances from a source to the beginnings of the target, shortest first.
def distanceRow (source target : List Char) : List Nat :=
  source.foldl (nextRow target) (List.range (target.length + 1))

def editDistance (source target : String) : Nat :=
  (distanceRow source.toList target.toList).getLastD 0

end SpriteCompiler.Text
