import SpriteCompiler.Text.Invisible

namespace SpriteCompiler.Text

private def hexDigits (n : Nat) : List Char :=
  Nat.toDigits 16 n

-- How a block listing shows one character of a quoted text. Invisible characters are written as
-- their code point.
def listingChar (c : Char) : List Char :=
  if c = '"' then ['\\', '"']
  else if c = '\\' then ['\\', '\\']
  else if c = '\n' then ['\\', 'n']
  else if c = '\r' then ['\\', 'r']
  else if c = '\t' then ['\\', 't']
  else if c = '\x00' then ['\\', '0']
  else if isInvisible c then '\\' :: 'u' :: '\x7b' :: hexDigits c.toNat ++ ['\x7d']
  else [c]

def listingQuoted (s : String) : String :=
  String.ofList ('"' :: s.toList.flatMap listingChar ++ ['"'])

-- How an interchange document writes one character of a text. Only quotes, backslashes and
-- controls are escaped.
def interchangeChar (c : Char) : List Char :=
  if c = '"' then ['\\', '"']
  else if c = '\\' then ['\\', '\\']
  else if c = '\n' then ['\\', 'n']
  else if c = '\r' then ['\\', 'r']
  else if c = '\t' then ['\\', 't']
  else if c = '\x08' then ['\\', 'b']
  else if c = '\x0c' then ['\\', 'f']
  else if c.toNat < 0x10 then '\\' :: 'u' :: '0' :: '0' :: '0' :: hexDigits c.toNat
  else if c.toNat < 0x20 then '\\' :: 'u' :: '0' :: '0' :: hexDigits c.toNat
  else [c]

def interchangeQuoted (s : String) : String :=
  String.ofList ('"' :: s.toList.flatMap interchangeChar ++ ['"'])

end SpriteCompiler.Text
