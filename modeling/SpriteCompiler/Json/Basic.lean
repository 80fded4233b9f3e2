import SpriteCompiler.Number.Text
import SpriteCompiler.Text.Quoted

namespace SpriteCompiler

-- Whole and floating point numbers are kept apart, because they are written differently: `5` and `5.0`.
inductive Json where
  | null
  | bool (value : Bool)
  | int (value : Int)
  | float (value : Float)
  | str (value : String)
  | arr (items : List Json)
  | obj (fields : List (String × Json))

namespace Json

mutual

-- The compact text of a value. Numbers that are not finite have no text of their own.
def render : Json → String
  | .null => "null"
  | .bool true => "true"
  | .bool false => "false"
  | .int n => Number.intText n
  | .float x => (Number.floatText? x).getD "null"
  | .str s => Text.interchangeQuoted s
  | .arr items => "[" ++ ",".intercalate (renderItems items) ++ "]"
  | .obj fields => "\x7b" ++ ",".intercalate (renderFields fields) ++ "\x7d"

def renderItems : List Json → List String
  | [] => []
  | item :: items => item.render :: renderItems items

def renderFields : List (String × Json) → List String
  | [] => []
  | (name, value) :: fields =>
    (Text.interchangeQuoted name ++ ":" ++ value.render) :: renderFields fields

end

mutual

-- How deep arrays and objects are nested. Anything else is not nested at all.
def depth : Json → Nat
  | .arr items => depthItems items + 1
  | .obj fields => depthFields fields + 1
  | _ => 0

def depthItems : List Json → Nat
  | [] => 0
  | item :: items => max item.depth (depthItems items)

def depthFields : List (String × Json) → Nat
  | [] => 0
  | (_, value) :: fields => max value.depth (depthFields fields)

end

end SpriteCompiler.Json
