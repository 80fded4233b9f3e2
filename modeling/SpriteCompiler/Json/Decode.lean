import SpriteCompiler.Json.Basic

namespace SpriteCompiler.Json

def bool? : Json → Option Bool
  | .bool b => some b
  | _ => none

def str? : Json → Option String
  | .str s => some s
  | _ => none

def arr? : Json → Option (List Json)
  | .arr items => some items
  | _ => none

def obj? : Json → Option (List (String × Json))
  | .obj fields => some fields
  | _ => none

-- A floating point number takes any number, whole numbers being rounded to the nearest double.
def float? : Json → Option Float
  | .float x => some x
  | .int n => some (Float.ofInt n)
  | _ => none

-- A word takes whole numbers in its range only.
def word? : Json → Option UInt32
  | .int n => if 0 ≤ n ∧ n < UInt32.size then some (UInt32.ofNat n.toNat) else none
  | _ => none

-- A position takes whole numbers of 64 bits.
def nat? : Json → Option Nat
  | .int n => if 0 ≤ n ∧ n < UInt64.size then some n.toNat else none
  | _ => none

def word (n : UInt32) : Json :=
  .int n.toNat

-- The field of an object, if it has one of that name.
def field? (json : Json) (name : String) : Option Json :=
  match json with
  | .obj fields => fields.lookup name
  | _ => none

-- An optional field may be missing or null.
def optional? (json : Json) (name : String) (decode : Json → Option α) : Option (Option α) :=
  match json.field? name with
  | none => some none
  | some .null => some none
  | some value => (decode value).map some

-- An optional value is written as null when it is absent.
def ofOption (encode : α → Json) : Option α → Json
  | none => .null
  | some a => encode a

-- A list in which every item decodes.
def list? (json : Json) (decode : Json → Option α) : Option (List α) := do
  (← json.arr?).mapM decode

-- A record is an object, or an array of all its fields in order.
def record? (names : List String) : Json → Option Json
  | .obj fields => some (.obj fields)
  | .arr items => if items.length = names.length then some (.obj (names.zip items)) else none
  | _ => none

-- A variant without a payload is its name, or an object in which null stands for the payload.
def tag? : Json → Option String
  | .str tag => some tag
  | .obj [(tag, .null)] => some tag
  | _ => none

-- A variant with a payload is an object with exactly one field.
def variant? : Json → Option (String × Json)
  | .obj [(tag, payload)] => some (tag, payload)
  | _ => none

end SpriteCompiler.Json
