import SpriteCompiler.Block.Opcode
import SpriteCompiler.Literal

namespace SpriteCompiler

mutual

inductive Block where
  | mk (opcode : Opcode) (params : List Param)

inductive Param where
  | literal (value : Literal)
  | block (block : Block)
  | body (blocks : List Block)
  | empty

end

namespace Param

def text (s : String) : Param :=
  .literal (.text s)

def number (x : Float) : Param :=
  .literal (.number x)

def literal? : Param → Option Literal
  | .literal value => some value
  | _ => none

def block? : Param → Option Block
  | .block b => some b
  | _ => none

def body? : Param → Option (List Block)
  | .body blocks => some blocks
  | _ => none

def isEmpty : Param → Bool
  | .empty => true
  | _ => false

end Param

namespace Block

def opcode : Block → Opcode
  | .mk opcode _ => opcode

def params : Block → List Param
  | .mk _ params => params

-- The body among the parameters at an index, counted from zero.
def body? (b : Block) (index : Nat) : Option (List Block) :=
  b.params[index]?.bind Param.body?

-- A block with as many parameters as its instruction takes. The count is checked where the block is
-- written down.
def make (opcode : Opcode) (params : List Param) (_h : params.length = opcode.arity := by rfl) :
    Block :=
  .mk opcode params

-- A block was given a wrong number of parameters.
structure Malformed where
  opcode : Opcode
  given : Nat
  deriving DecidableEq

-- A block from parameters that are only known when the program runs.
def checked (opcode : Opcode) (params : List Param) : Except Malformed Block :=
  if h : params.length = opcode.arity then .ok (make opcode params h)
  else .error ⟨opcode, params.length⟩

end Block

end SpriteCompiler
