import SpriteCompiler.Scope.Tree
import SpriteCompiler.Block.Basic

namespace SpriteCompiler

namespace Stack

-- Deletes the last item of the stack.
def deleteLast (stackList : String) : Block :=
  .make .deleteOfList [.text "last", .text stackList]

-- Releases the slots of one local, several of them with a loop.
def release (stackList : String) (slots : Nat) : Block :=
  if slots = 1 then deleteLast stackList
  else .make .repeatTimes [.number (Float.ofNat slots), .body [deleteLast stackList]]

-- Releases the locals of a scope, given in order of declaration. One without slots needs no block.
def releaseAll (stackList : String) (locals : List Local) : List Block :=
  (locals.reverse.filter (0 < ·.slots)).map fun l => release stackList l.slots

end Stack

namespace ScopeTree

-- Releases the locals of one scope.
def cleanup (t : ScopeTree) (stackList : String) (id : Nat) : Except MissingScope (List Block) :=
  return Stack.releaseAll stackList (← t.scope id).locals

-- Releases the locals of a scope and of all its ancestors, innermost first, as is done before the
-- whole method is left.
def unwind (t : ScopeTree) (stackList : String) (id : Nat) : Except MissingScope (List Block) :=
  return (← t.outward id).flatMap fun (_, s) => Stack.releaseAll stackList s.locals

end ScopeTree

end SpriteCompiler
