import SpriteCompiler.Block.Basic

namespace SpriteCompiler.Stack

def length (stackList : String) : Param :=
  .block (.make .lengthOfList [.text stackList])

-- The index of a slot with `depth` slots after it. Items are counted from one, and the last item has a
-- name of its own.
def slotIndex (stackList : String) (depth : Nat) : Param :=
  if depth = 0 then .text "last"
  else .block (.make .subtract [length stackList, .number (Float.ofNat depth)])

-- The index of an item of an array of `size` slots with `depth` slots after it.
def itemIndex (stackList : String) (depth size : Nat) (index : Param) : Param :=
  .block (.make .add
    [.block (.make .subtract [length stackList, .number (Float.ofNat (depth + size))]), index])

def read (stackList : String) (index : Param) : Param :=
  .block (.make .itemOfList [index, .text stackList])

def write (stackList : String) (index value : Param) : Block :=
  .make .replaceItemOfList [index, .text stackList, value]

def push (stackList : String) (value : Param) : Block :=
  .make .appendToList [value, .text stackList]

end SpriteCompiler.Stack
