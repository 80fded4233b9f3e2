import SpriteCompiler.Block.Json

namespace SpriteCompiler

structure StoredVariable where
  name : String
  value : Literal
  deriving DecidableEq

structure StoredList where
  name : String
  contents : List Literal
  deriving DecidableEq

structure Procedure where
  name : String
  -- the name with one input mark for each parameter
  spec : String
  params : List String
  defaults : List Literal
  -- runs without redrawing the screen
  atomic : Bool
  body : List Block

-- A compiled sprite, or the stage.
structure SpriteOutput where
  name : String
  cells : List StoredVariable
  lists : List StoredList
  procedures : List Procedure

-- Nothing is kept from one session to the next.
def StoredVariable.toJson (v : StoredVariable) : Json :=
  .obj [("name", .str v.name), ("value", v.value.stored), ("isPersistent", .bool false)]

def StoredList.toJson (l : StoredList) : Json :=
  .obj [("listName", .str l.name), ("contents", .arr (l.contents.map Literal.stored)),
    ("isPersistent", .bool false)]

-- The head of a procedure's script.
def Procedure.header (p : Procedure) : Json :=
  .arr [.str "procDef", .str p.spec, .arr (p.params.map .str), .arr (p.defaults.map Literal.stored),
    .bool p.atomic]

-- A script: the head followed by the body.
def Procedure.toJson (p : Procedure) : Json :=
  .arr (p.header :: Block.listToJson p.body)

def SpriteOutput.toJson (s : SpriteOutput) : Json :=
  .obj [("objName", .str s.name), ("variables", .arr (s.cells.map StoredVariable.toJson)),
    ("lists", .arr (s.lists.map StoredList.toJson)),
    ("scripts", .arr (s.procedures.map Procedure.toJson))]

end SpriteCompiler
