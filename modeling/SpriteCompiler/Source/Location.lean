namespace SpriteCompiler

-- The bytes from `start` up to, and without, `stop`.
structure Span where
  start : UInt32
  stop : UInt32
  deriving DecidableEq

def Span.length (s : Span) : Nat :=
  s.stop.toNat - s.start.toNat

def Span.isEmpty (s : Span) : Bool :=
  s.start == s.stop

-- A span in one of the source files, which are numbered in the order they were added.
structure Location where
  file : UInt32
  span : Span
  deriving DecidableEq

end SpriteCompiler
