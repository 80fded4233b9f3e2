namespace SpriteCompiler

inductive Opcode where
  -- set a variable: name, value
  | setVariable
  -- change a variable by an amount: name, amount
  | changeVariable
  -- the value of a variable: name
  | readVariable
  -- the argument for a parameter: name, kind of input
  | getParam
  -- run a body a number of times: count, body
  | repeatTimes
  -- run a body until a condition holds: condition, body
  | repeatUntil
  -- run a body without end: body
  | forever
  -- condition, body
  | ifThen
  -- condition, body, other body
  | ifThenElse
  -- stop running: what to stop
  | stop
  -- the item of a list: index, list
  | itemOfList
  -- replace the item of a list: index, list, value
  | replaceItemOfList
  -- delete the item of a list: index, list
  | deleteOfList
  -- append to a list: value, list
  | appendToList
  -- the number of items of a list: list
  | lengthOfList
  -- the items of a list as one text: list
  | contentsOfList
  | add
  | subtract
  | multiply
  | divide
  | modulo
  | concat
  | equal
  | lessThan
  | greaterThan
  | and
  | or
  | not
  deriving DecidableEq

namespace Opcode

def all : List Opcode :=
  [.setVariable, .changeVariable, .readVariable, .getParam, .repeatTimes, .repeatUntil, .forever,
    .ifThen, .ifThenElse, .stop, .itemOfList, .replaceItemOfList, .deleteOfList, .appendToList,
    .lengthOfList, .contentsOfList, .add, .subtract, .multiply, .divide, .modulo, .concat, .equal,
    .lessThan, .greaterThan, .and, .or, .not]

-- The name of the instruction in project files.
def selector : Opcode → String
  | .setVariable => "setVar:to:"
  | .changeVariable => "changeVar:by:"
  | .readVariable => "readVariable"
  | .getParam => "getParam"
  | .repeatTimes => "doRepeat"
  | .repeatUntil => "doUntil"
  | .forever => "doForever"
  | .ifThen => "doIf"
  | .ifThenElse => "doIfElse"
  | .stop => "stopScripts"
  | .itemOfList => "getLine:ofList:"
  | .replaceItemOfList => "setLine:ofList:to:"
  | .deleteOfList => "deleteLine:ofList:"
  | .appendToList => "append:toList:"
  | .lengthOfList => "lineCountOfList:"
  | .contentsOfList => "contentsOfList:"
  | .add => "+"
  | .subtract => "-"
  | .multiply => "*"
  | .divide => "/"
  | .modulo => "%"
  | .concat => "concatenate:with:"
  | .equal => "="
  | .lessThan => "<"
  | .greaterThan => ">"
  | .and => "&"
  | .or => "|"
  | .not => "not"

-- The number of parameters.
def arity : Opcode → Nat
  | .readVariable | .forever | .stop | .lengthOfList | .contentsOfList | .not => 1
  | .replaceItemOfList | .ifThenElse => 3
  | _ => 2

-- The instruction has bodies among its parameters.
def isControl : Opcode → Bool
  | .repeatTimes | .repeatUntil | .forever | .ifThen | .ifThenElse => true
  | _ => false

end Opcode

end SpriteCompiler
