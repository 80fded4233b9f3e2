import SpriteCompiler.Lowering.Assign
import SpriteCompiler.Lowering.Declare
import SpriteCompiler.Lowering.Unroll

namespace SpriteCompiler.Lower

-- All conditions together, joined from the right. No condition at all always holds.
def conjunction (options : Options) (loc : Location) : List Param → Param
  | [] => .literal (.boolean true)
  | [p] => p
  | p :: rest => BinaryOp.and.apply options p (conjunction options loc rest) loc

-- Leaves the method: stores the result, releases all locals and stops the script.
def ret (options : Options) (ctx : Context) (value : Option Expr) : Lower (List Block) := do
  let id ← currentScope ctx
  let stored ← match value with
    | none => pure []
    | some e => do
      match (← get).scopes.method with
      | none => throw .outsideMethod
      | some m =>
        match m.returnType with
        | some expected =>
          checkType ctx expected e
          let value ← expr options ctx e
          pure [.make .setVariable [.text (options.returnVariable m.name), value]]
        | none =>
          report (.noReturnValue m.name e.location)
          pure []
  let released ← unwind options id
  return stored ++ released ++ [.make .stop [.text "this script"]]

-- The body of an inline loop, as often as its count says, which has to be a literal.
def unroll (options : Options) (count : Expr) (body : List Block) : Lower (List Block) := do
  match count.literal? with
  | some (.number x) =>
    let limit := options.maxInlineRepetitions.toNat
    match unrolling limit x with
    | .times 0 => return []
    | .times n =>
      trace ("unrolling inline repeat " ++ Number.natText n ++ " times")
      return (List.replicate n body).flatten
    | .tooMany =>
      report (.invalidArgument
        ("Loop cannot be inlined more than " ++ Number.natText limit ++ " times") count.location)
      return []
  | _ =>
    report (.invalidArgument "Loop cannot be inlined" count.location)
    return []

mutual

def stmt (options : Options) (ctx : Context) : Stmt → Lower (List Block)
  | .declare l => declare options ctx l
  | .assign target assignment loc => assign options ctx target assignment loc
  | .repeatLoop inline count body _ => do
    let blocks ← nested options ctx fun inner => stmts options inner body
    if inline then unroll options count blocks
    else
      let count ← expr options ctx count
      return [.make .repeatTimes [count, .body blocks]]
  | .whileLoop condition body _ => do
    let holds ← expr options ctx condition
    let stops := UnaryOp.not.apply options holds condition.location
    let blocks ← nested options ctx fun inner => stmts options inner body
    return [.make .repeatUntil [stops, .body blocks]]
  | .forever body _ => do
    let blocks ← nested options ctx fun inner => stmts options inner body
    return [.make .forever [.body blocks]]
  | .branch condition thenBody elseBody _ => do
    let condition ← expr options ctx condition
    let first ← nested options ctx fun inner => stmts options inner thenBody
    if elseBody.isEmpty then return [.make .ifThen [condition, .body first]]
    else
      let second ← nested options ctx fun inner => stmts options inner elseBody
      return [.make .ifThenElse [condition, .body first, .body second]]
  | .switch _ cases _ => switch options ctx cases
  | .ret value _ => ret options ctx value
  | .scope body _ => nested options ctx fun inner => stmts options inner body

-- Statements one after the other.
def stmts (options : Options) (ctx : Context) : List Stmt → Lower (List Block)
  | [] => return []
  | s :: rest => do
    let first ← stmt options ctx s
    return first ++ (← stmts options ctx rest)

-- The first case is tried, and if it does not apply, the others. A default at the end needs no
-- condition.
def switch (options : Options) (ctx : Context) : List Case → Lower (List Block)
  | [] => return []
  | .mk conditions body isDefault loc :: rest => do
    if rest.isEmpty && isDefault then nested options ctx fun inner => stmts options inner body
    else
      let conditions ← conditions.mapM (expr options ctx)
      let condition := conjunction options loc conditions
      let first ← nested options ctx fun inner => stmts options inner body
      if rest.isEmpty then return [.make .ifThen [condition, .body first]]
      else
        let others ← switch options ctx rest
        return [.make .ifThenElse [condition, .body first, .body others]]

end

end SpriteCompiler.Lower
