import SpriteCompiler.Text.EditDistance

namespace SpriteCompiler

-- A suggestion is at most this many edits away.
def maxSuggestionDistance : Nat := 3

-- At most this many suggestions are made.
def maxSuggestions : Nat := 3

-- Goes on to one more candidate, which is kept with its distance if it is another name than `name`,
-- is not among those kept before, and is near enough.
def addNearName (name : String) (near : List (String × Nat)) (c : String) : List (String × Nat) :=
  if c == name || near.any (·.1 == c) then near
  else
    let distance := Text.editDistance name c
    if distance ≤ maxSuggestionDistance then near ++ [(c, distance)] else near

-- The names near enough to `name`, each once and with its distance, in the given order.
def nearNames (name : String) (candidates : List String) : List (String × Nat) :=
  candidates.foldl (addNearName name) []

-- The nearest names, those given earlier first among equally near ones.
def suggest (name : String) (candidates : List String) : List String :=
  (((nearNames name candidates).mergeSort fun a b => a.2 ≤ b.2).take maxSuggestions).map (·.1)

end SpriteCompiler
