import SpriteCompiler.Program.Expr

namespace SpriteCompiler

structure Constant where
  name : String
  type : ValueType
  value : Literal
  loc : Location
  deriving DecidableEq

structure GlobalVariable where
  name : String
  type : ValueType
  value : Option Literal
  loc : Location
  deriving DecidableEq

structure GlobalList where
  name : String
  type : ValueType
  items : List Literal
  loc : Location
  deriving DecidableEq

structure Parameter where
  name : String
  type : ValueType
  loc : Location
  deriving DecidableEq

-- A local variable takes up any number of stack slots, one in the common case.
structure LocalVariable where
  name : String
  type : ValueType
  value : Option Expr
  slots : UInt32
  loc : Location
  deriving DecidableEq

-- A local array takes up one slot for each of its items and never changes its length.
structure LocalArray where
  name : String
  type : ValueType
  items : List Expr
  loc : Location
  deriving DecidableEq

inductive Global where
  | constant (decl : Constant)
  | variable (decl : GlobalVariable)
  | list (decl : GlobalList)
  deriving DecidableEq

inductive Local where
  | variable (decl : LocalVariable)
  | array (decl : LocalArray)
  deriving DecidableEq

def Global.name : Global → String
  | .constant d => d.name
  | .variable d => d.name
  | .list d => d.name

def Global.location : Global → Location
  | .constant d => d.loc
  | .variable d => d.loc
  | .list d => d.loc

def Local.name : Local → String
  | .variable d => d.name
  | .array d => d.name

def Local.location : Local → Location
  | .variable d => d.loc
  | .array d => d.loc

-- The number of stack slots a local takes up.
def Local.slots : Local → Nat
  | .variable d => d.slots.toNat
  | .array d => d.items.length

end SpriteCompiler
