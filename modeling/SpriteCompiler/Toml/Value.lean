import SpriteCompiler.Json.Basic

namespace SpriteCompiler.Toml

inductive Value where
  | text (value : String)
  | integer (value : Int)
  | float (value : Float)
  | boolean (value : Bool)
  -- a date, a time of day or both, as it was written
  | moment (written : String)
  | array (items : List Value)
  | table (fields : List (String × Value)) (isOpen : Bool)

namespace Value

-- The value of an option, if it can be one.
def setting? : Value → Option Json
  | .text s => some (.str s)
  | .integer n => some (.int n)
  | .boolean b => some (.bool b)
  | _ => none

-- Puts a value at the end of a path of names, making the tables on the way. A name is never given
-- twice, and a complete table is not added to.
def insert? (value : Value) : List String → List (String × Value) → Option (List (String × Value))
  | [], _ => none
  | [name], fields =>
    match fields.lookup name with
    | none => some (fields ++ [(name, value)])
    | some _ => none
  | name :: path, fields =>
    match fields.lookup name with
    | none => (insert? value path []).map fun inner => fields ++ [(name, .table inner true)]
    | some (.table inner true) =>
      (insert? value path inner).map fun inner =>
        fields.map fun (n, v) => if n == name then (n, .table inner true) else (n, v)
    | some _ => none

end Value

end SpriteCompiler.Toml
