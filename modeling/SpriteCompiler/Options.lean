import SpriteCompiler.Json.Decode

namespace SpriteCompiler

structure Options where
  -- the list that holds the locals of methods
  stackList : String := "stack"
  -- what the variable for a method's result is called, before the method's name
  returnStem : String := "return "
  -- whether operators are applied to literals at compile time
  foldConstants : Bool := true
  -- how often the body of an inline loop may be repeated
  maxInlineRepetitions : UInt32 := 10000
  deriving DecidableEq

namespace Options

-- The variable that holds the result of a method.
def returnVariable (o : Options) (method : String) : String :=
  o.returnStem ++ method

def toJson (o : Options) : Json :=
  .obj [("stack_list", .str o.stackList), ("return_variable_prefix", .str o.returnStem),
    ("fold_constants", .bool o.foldConstants),
    ("max_inline_repetitions", .word o.maxInlineRepetitions)]

-- Options with one of them changed; there are no others, and each has its type.
def setField? (o : Options) (name : String) (value : Json) : Option Options :=
  match name with
  | "stack_list" => value.str?.map fun s => { o with stackList := s }
  | "return_variable_prefix" => value.str?.map fun s => { o with returnStem := s }
  | "fold_constants" => value.bool?.map fun b => { o with foldConstants := b }
  | "max_inline_repetitions" => value.word?.map fun n => { o with maxInlineRepetitions := n }
  | _ => none

-- The options in the order in which they may be given without their names.
def fieldNames : List String :=
  ["stack_list", "return_variable_prefix", "fold_constants", "max_inline_repetitions"]

-- Options given as an object, or as an array in order. What is not given keeps its usual value.
def ofJson? (j : Json) : Option Options := do
  let given ← match j with
    | .obj fields => some fields
    | .arr items => if items.length ≤ fieldNames.length then some (fieldNames.zip items) else none
    | _ => none
  given.foldlM (fun o (name, value) => o.setField? name value) {}

end Options

end SpriteCompiler
