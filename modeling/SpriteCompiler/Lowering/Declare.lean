import SpriteCompiler.Lowering.Expr

namespace SpriteCompiler.Lower

-- Pushes the slots of a variable from number `slot` on, `count` of them. Everything else on the
-- stack is one deeper after each push, so the initializer is compiled for every slot, and its
-- problems are reported for the first one only.
def pushSlots (options : Options) (ctx : Context) (v : LocalVariable) :
    (count slot : Nat) → Lower (List Block)
  | 0, _ => return []
  | count + 1, slot => do
    modify fun s => { s with pendingSlots := slot, muted := 0 < slot }
    let value ← match v.value with
      | some e => expr options ctx e
      | none => pure (.literal v.type.default)
    let rest ← pushSlots options ctx v count (slot + 1)
    return Stack.push options.stackList value :: rest

def allocateVariable (options : Options) (ctx : Context) (v : LocalVariable) :
    Lower (List Block) := do
  match v.value with
  | some e => checkType ctx v.type e
  | none => pure ()
  let blocks ← pushSlots options ctx v v.slots.toNat 0
  modify fun s => { s with muted := false }
  return blocks

-- Pushes the items of an array from number `slot` on.
def pushItems (options : Options) (ctx : Context) (type : ValueType) :
    List Expr → Nat → Lower (List Block)
  | [], _ => return []
  | item :: items, slot => do
    checkType ctx type item
    modify fun s => { s with pendingSlots := slot }
    let value ← expr options ctx item
    let rest ← pushItems options ctx type items (slot + 1)
    return Stack.push options.stackList value :: rest

def allocate (options : Options) (ctx : Context) : Local → Lower (List Block)
  | .variable v => allocateVariable options ctx v
  | .array a => pushItems options ctx a.type a.items 0

-- Pushes a local and then declares it in the current scope, so that its own initializers still see an
-- outer local of its name. If the name is taken in the scope, that is reported and nothing is pushed
-- after all.
def declare (options : Options) (ctx : Context) (l : Local) : Lower (List Block) := do
  let blocks ← allocate options ctx l
  modify fun s => { s with pendingSlots := 0 }
  let id ← currentScope ctx
  let (result, scopes) ← ask (·.declare id l)
  modify fun s => { s with scopes }
  match result with
  | .ok () => return blocks
  | .error duplicate =>
    report (.duplicateDeclaration l.name l.location (some duplicate.first))
    return []

end SpriteCompiler.Lower
