import SpriteCompiler.Lowering.Session
import SpriteCompiler.Stack.Access
import SpriteCompiler.Block.Operation
import SpriteCompiler.Program.Expr

namespace SpriteCompiler

-- The static type of an expression. Nothing is known about a name that stands for nothing, and a
-- whole list reads as text.
def Expr.inferType (ctx : Context) (scopes : ScopeTree) : Expr → Except MissingScope ValueType
  | .literal value _ => return value.type
  | .lookup name _ => do
    match ← ctx.resolve scopes name with
    | some (.globalList _) => return .text
    | some b => return b.type
    | none => return .object
  | .item array _ _ => return (← ctx.resolve scopes array).elim .object Binding.type
  | .unary op _ _ => return op.resultType
  | .binary op _ _ _ => return op.resultType

namespace Lower

-- Reports a problem in place of a value.
def placeholder (d : Diagnostic) : Lower Param := do
  report d
  return .empty

-- The kind of input a parameter is read as.
def inputKind (type : ValueType) : String :=
  if type = .boolean then "b" else "r"

-- A name used as a value.
def lookup (options : Options) (ctx : Context) (name : String) (loc : Location) : Lower Param := do
  match ← resolve? ctx name with
  | none =>
    reportNotDefined ctx name loc
    return .empty
  | some (.constant c) => return .literal c.value
  | some (.globalVariable v) => return .block (.make .readVariable [.text v.name])
  | some (.globalList l) => return .block (.make .contentsOfList [.text l.name])
  | some (.parameter p) => return .block (.make .getParam [.text p.name, .text (inputKind p.type)])
  | some (.localVariable v) =>
    if v.slots = 1 then
      let depth ← stackDepth ctx name
      return Stack.read options.stackList (Stack.slotIndex options.stackList depth)
    else placeholder (.notAValue name loc)
  | some (.localArray _) => placeholder (.notAValue name loc)
  | some (.method _) => placeholder (.notAValue name loc)

def expr (options : Options) (ctx : Context) : Expr → Lower Param
  | .literal value _ => return .literal value
  | .lookup name loc => lookup options ctx name loc
  | .item array index loc => do
    match ← resolve? ctx array with
    | none =>
      reportNotDefined ctx array loc
      return .empty
    | some (.globalList l) =>
      let index ← expr options ctx index
      return .block (.make .itemOfList [index, .text l.name])
    | some (.localArray a) =>
      let index ← expr options ctx index
      let depth ← stackDepth ctx array
      return Stack.read options.stackList
        (Stack.itemIndex options.stackList depth a.items.length index)
    | some _ => placeholder (.notAnArray array loc)
  | .unary op operand loc => do
    let operand ← expr options ctx operand
    return op.apply options operand loc
  | .binary op left right loc => do
    let left ← expr options ctx left
    let right ← expr options ctx right
    return op.apply options left right loc

-- Reports an expression whose type does not fit.
def checkType (ctx : Context) (expected : ValueType) (value : Expr) : Lower Unit := do
  let found ← ask (value.inferType ctx)
  if expected.accepts found then pure ()
  else report (.typeMismatch expected.keyword found.keyword value.location)

end Lower

end SpriteCompiler
