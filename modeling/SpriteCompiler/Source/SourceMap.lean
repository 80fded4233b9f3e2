import SpriteCompiler.Source.Location
import SpriteCompiler.Number.Text

namespace SpriteCompiler

-- A position as people count it, from line 1 and column 1.
structure LineCol where
  line : UInt32
  column : UInt32
  deriving DecidableEq

def LineCol.text (p : LineCol) : String :=
  Number.natText p.line.toNat ++ ":" ++ Number.natText p.column.toNat

-- The offsets just after each newline of a text that begins at `offset`.
def lineStartsFrom (offset : Nat) : List Char → List Nat
  | [] => []
  | c :: cs =>
    if c = '\n' then (offset + c.utf8Size) :: lineStartsFrom (offset + c.utf8Size) cs
    else lineStartsFrom (offset + c.utf8Size) cs

structure SourceFile where
  name : String
  text : String
  -- The offsets at which lines start, in increasing order.
  lineStarts : Array Nat

namespace SourceFile

def ofText (name text : String) : SourceFile :=
  ⟨name, text, (0 :: lineStartsFrom 0 text.toList).toArray⟩

end SourceFile

structure SourceMap where
  files : Array SourceFile := #[]

namespace SourceMap

def size (m : SourceMap) : Nat :=
  m.files.size

-- Adds a file and gives its number.
def add (m : SourceMap) (name text : String) : Nat × SourceMap :=
  (m.files.size, ⟨m.files.push (.ofText name text)⟩)

end SourceMap

end SpriteCompiler
