import SpriteCompiler.Program.Declaration

namespace SpriteCompiler

-- What is done to the target of an assignment.
inductive Assignment where
  | set (value : Expr)
  | add (value : Expr)
  | subtract (value : Expr)
  | join (value : Expr)
  | increment
  | decrement
  deriving DecidableEq

namespace Assignment

def op : Assignment → AssignOp
  | .set _ => .set
  | .add _ => .add
  | .subtract _ => .subtract
  | .join _ => .join
  | .increment => .increment
  | .decrement => .decrement

def operand? : Assignment → Option Expr
  | .set e | .add e | .subtract e | .join e => some e
  | .increment | .decrement => none

end Assignment

mutual

inductive Stmt where
  | declare (decl : Local)
  | assign (target : String) (assignment : Assignment) (loc : Location)
  -- an inline loop is unrolled instead of being run as a loop
  | repeatLoop (inline : Bool) (count : Expr) (body : List Stmt) (loc : Location)
  | whileLoop (condition : Expr) (body : List Stmt) (loc : Location)
  | forever (body : List Stmt) (loc : Location)
  -- an empty second body means that there is nothing to do otherwise
  | branch (condition : Expr) (thenBody elseBody : List Stmt) (loc : Location)
  -- the conditions of the cases already speak about the subject
  | switch (subject : Expr) (cases : List Case) (loc : Location)
  | ret (value : Option Expr) (loc : Location)
  | scope (body : List Stmt) (loc : Location)

-- One case of a switch. It is taken when all its conditions hold; only the last may be the default.
inductive Case where
  | mk (conditions : List Expr) (body : List Stmt) (isDefault : Bool) (loc : Location)

end

namespace Case

def conditions : Case → List Expr
  | .mk conditions _ _ _ => conditions

def body : Case → List Stmt
  | .mk _ body _ _ => body

def isDefault : Case → Bool
  | .mk _ _ isDefault _ => isDefault

def location : Case → Location
  | .mk _ _ _ loc => loc

end Case

end SpriteCompiler
