import SpriteCompiler.Lowering.Expr
import SpriteCompiler.Program.Stmt

namespace SpriteCompiler.Lower

-- Reports an operator that does not go with its target's type. The code is made all the same.
def checkOperator (op : AssignOp) (target : ValueType) (loc : Location) : Lower Unit :=
  match op.targetType? with
  | none => pure ()
  | some required =>
    if required.accepts target then pure ()
    else report (.operatorMismatch op.symbol target.keyword loc)

-- The target's value with the operand's text after it.
def joined (options : Options) (ctx : Context) (name : String) (operand : Expr) (loc : Location) :
    Lower Param := do
  let current ← lookup options ctx name loc
  let value ← expr options ctx operand
  return BinaryOp.concat.apply options current value loc

-- The amount by which a stepping operator changes its target.
def step (options : Options) (ctx : Context) (assignment : Assignment) (loc : Location) :
    Lower Param := do
  match assignment with
  | .add e => expr options ctx e
  | .subtract e =>
    let value ← expr options ctx e
    return UnaryOp.minus.apply options value loc
  | .increment => return .number 1.0
  | .decrement => return .number (-1.0)
  | .set _ => throw (.noStep .set)
  | .join _ => throw (.noStep .join)

def assignLocal (options : Options) (ctx : Context) (v : LocalVariable) (assignment : Assignment)
    (loc : Location) : Lower (List Block) := do
  let depth ← stackDepth ctx v.name
  let index := Stack.slotIndex options.stackList depth
  let value ← match assignment with
    | .set e => expr options ctx e
    | .join e => joined options ctx v.name e loc
    | _ => do
      let amount ← step options ctx assignment loc
      pure (BinaryOp.add.apply options (Stack.read options.stackList index) amount loc)
  return [Stack.write options.stackList index value]

def assignGlobal (options : Options) (ctx : Context) (v : GlobalVariable) (assignment : Assignment)
    (loc : Location) : Lower (List Block) := do
  match assignment with
  | .set e =>
    let value ← expr options ctx e
    return [.make .setVariable [.text v.name, value]]
  | .join e =>
    let value ← joined options ctx v.name e loc
    return [.make .setVariable [.text v.name, value]]
  | _ =>
    let amount ← step options ctx assignment loc
    return [.make .changeVariable [.text v.name, amount]]

def assign (options : Options) (ctx : Context) (target : String) (assignment : Assignment)
    (loc : Location) : Lower (List Block) := do
  match ← resolve? ctx target with
  | none =>
    reportNotDefined ctx target loc
    return []
  | some (.localVariable v) =>
    if v.slots = 1 then
      checkOperator assignment.op v.type loc
      assignLocal options ctx v assignment loc
    else
      report (.notAVariable target loc)
      return []
  | some (.globalVariable v) =>
    checkOperator assignment.op v.type loc
    assignGlobal options ctx v assignment loc
  | some b =>
    report (if b.isReadonly then .readonly target loc else .notAVariable target loc)
    return []

end SpriteCompiler.Lower
