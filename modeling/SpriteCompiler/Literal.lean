import SpriteCompiler.Number.Text

namespace SpriteCompiler

-- The static type of a value. `object` is the type of values about which nothing is known.
inductive ValueType where
  | number
  | text
  | boolean
  | object
  deriving DecidableEq

inductive Literal where
  | number (value : Float)
  | text (value : String)
  | boolean (value : Bool)
  deriving DecidableEq

namespace ValueType

def keyword : ValueType → String
  | .number => "num"
  | .text => "string"
  | .boolean => "bool"
  | .object => "object"

-- The type a keyword names. Where no type was written, nothing is known.
def ofKeyword? : Option String → Option ValueType
  | none => some .object
  | some "num" => some .number
  | some "string" => some .text
  | some "bool" => some .boolean
  | some "object" => some .object
  | some _ => none

-- A value of type `found` may stand where `expected` is wanted. An unknown type fits everywhere,
-- and a boolean counts as one or zero where a number is wanted.
def accepts (expected found : ValueType) : Bool :=
  match expected, found with
  | .object, _ => true
  | _, .object => true
  | .number, .boolean => true
  | _, _ => expected == found

-- What a variable of this type holds before anything is stored in it.
def default : ValueType → Literal
  | .number => .number 0.0
  | .boolean => .boolean false
  | .text => .text ""
  | .object => .text ""

end ValueType

namespace Literal

def type : Literal → ValueType
  | .number _ => .number
  | .text _ => .text
  | .boolean _ => .boolean

def display : Literal → String
  | .number x => Number.text x
  | .text s => s
  | .boolean true => "true"
  | .boolean false => "false"

end Literal

end SpriteCompiler
