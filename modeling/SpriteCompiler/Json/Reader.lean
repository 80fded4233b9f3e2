import SpriteCompiler.Json.Basic
import SpriteCompiler.Number.Nearest

namespace SpriteCompiler.Json

-- A reader of one thing from the front of a text.
abbrev Reader (α : Type) := List Char → Option (α × List Char)

private def skipBlanks (cs : List Char) : List Char :=
  cs.dropWhile fun c => c == ' ' || c == '\t' || c == '\n' || c == '\r'

private def hexValue? (c : Char) : Option Nat :=
  if '0' ≤ c && c ≤ '9' then some (c.toNat - '0'.toNat)
  else if 'a' ≤ c && c ≤ 'f' then some (c.toNat - 'a'.toNat + 10)
  else if 'A' ≤ c && c ≤ 'F' then some (c.toNat - 'A'.toNat + 10)
  else none

-- Four hexadecimal digits, as after `\u`.
private def codeUnit : Reader Nat
  | a :: b :: c :: d :: rest => do
    let n := ((← hexValue? a) * 16 + (← hexValue? b)) * 256 + (← hexValue? c) * 16 + (← hexValue? d)
    some (n, rest)
  | _ => none

-- One escape, without its backslash. A code point above the first plane is two units; a unit of
-- such a pair does not stand alone.
private def escape : Reader Char
  | '"' :: rest => some ('"', rest)
  | '\\' :: rest => some ('\\', rest)
  | '/' :: rest => some ('/', rest)
  | 'b' :: rest => some ('\x08', rest)
  | 'f' :: rest => some ('\x0c', rest)
  | 'n' :: rest => some ('\n', rest)
  | 'r' :: rest => some ('\r', rest)
  | 't' :: rest => some ('\t', rest)
  | 'u' :: rest => do
    let (high, rest) ← codeUnit rest
    if 0xD800 ≤ high ∧ high < 0xDC00 then
      match rest with
      | '\\' :: 'u' :: rest =>
        let (low, rest) ← codeUnit rest
        if 0xDC00 ≤ low ∧ low < 0xE000 then
          some (Char.ofNat (0x10000 + (high - 0xD800) * 0x400 + (low - 0xDC00)), rest)
        else none
      | _ => none
    else if 0xDC00 ≤ high ∧ high < 0xE000 then none
    else some (Char.ofNat high, rest)
  | _ => none

-- The characters of a text up to its closing quote, collected in reverse.
private def textTail : Nat → List Char → Reader String
  | 0, _, _ => none
  | fuel + 1, done, cs =>
    match cs with
    | [] => none
    | '"' :: rest => some (String.ofList done.reverse, rest)
    | '\\' :: rest =>
      match escape rest with
      | some (c, rest) => textTail fuel (c :: done) rest
      | none => none
    | c :: rest => if c.toNat < 0x20 then none else textTail fuel (c :: done) rest

private def digits (cs : List Char) : List Char × List Char :=
  (cs.takeWhile Char.isDigit, cs.dropWhile Char.isDigit)

private def natOf (ds : List Char) : Nat :=
  ds.foldl (fun n d => n * 10 + (d.toNat - '0'.toNat)) 0

-- A power of ten, with its sign: `(negative, magnitude)`.
private def exponentPart : List Char → Option ((Bool × Nat) × List Char)
  | c :: rest =>
    if c = 'e' ∨ c = 'E' then
      let (negative, rest) := match rest with
        | '+' :: rest => (false, rest)
        | '-' :: rest => (true, rest)
        | rest => (false, rest)
      let (ds, rest) := digits rest
      if ds.isEmpty then none else some ((negative, natOf ds), rest)
    else some ((false, 0), c :: rest)
  | [] => some ((false, 0), [])

-- A number. Without a fraction and an exponent it is whole, except that a negative zero keeps its
-- sign by being a floating point number. Numbers beyond the largest double are refused.
private def number (negative : Bool) (cs : List Char) : Option (Json × List Char) := do
  let (whole, rest) := digits cs
  if whole.isEmpty ∨ (whole.length > 1 ∧ whole.head? = some '0') then none
  else
    let (fraction, rest) ← match rest with
      | '.' :: rest =>
        let (ds, rest) := digits rest
        if ds.isEmpty then none else some (some ds, rest)
      | rest => some (none, rest)
    let hasPower := match rest with
      | c :: _ => c == 'e' || c == 'E'
      | [] => false
    let ((powerNegative, power), rest) ← exponentPart rest
    let places := fraction.getD []
    let exponent : Int := (if powerNegative then -(power : Int) else power) - places.length
    let x := Number.nearest (natOf (whole ++ places)) exponent
    if !Number.isFinite x then none
    else if fraction.isNone && !hasPower && !(negative && natOf whole == 0) then
      let n : Int := natOf whole
      some (.int (if negative then -n else n), rest)
    else some (.float (if negative then -x else x), rest)

private def keyword (word : List Char) (value : Json) (cs : List Char) : Option (Json × List Char) :=
  if word.isPrefixOf cs then some (value, cs.drop word.length) else none

mutual

-- One value. Each step uses up one unit of fuel and at least one character, so the length of the
-- text is fuel enough.
private def value : Nat → Reader Json
  | 0, _ => none
  | fuel + 1, cs =>
    match skipBlanks cs with
    | '"' :: rest => (textTail (rest.length + 1) [] rest).map fun (s, rest) => (.str s, rest)
    | '[' :: rest =>
      match skipBlanks rest with
      | ']' :: rest => some (.arr [], rest)
      | rest => (items fuel rest).map fun (xs, rest) => (.arr xs, rest)
    | '\x7b' :: rest =>
      match skipBlanks rest with
      | '\x7d' :: rest => some (.obj [], rest)
      | rest => (fields fuel rest).map fun (xs, rest) => (.obj xs, rest)
    | '-' :: rest => number true rest
    | 't' :: rest => keyword ['r', 'u', 'e'] (.bool true) rest
    | 'f' :: rest => keyword ['a', 'l', 's', 'e'] (.bool false) rest
    | 'n' :: rest => keyword ['u', 'l', 'l'] .null rest
    | cs => number false cs

-- The items of an array up to its closing bracket, at least one.
private def items : Nat → Reader (List Json)
  | 0, _ => none
  | fuel + 1, cs => do
    let (item, rest) ← value fuel cs
    match skipBlanks rest with
    | ',' :: rest =>
      let (more, rest) ← items fuel rest
      some (item :: more, rest)
    | ']' :: rest => some ([item], rest)
    | _ => none

-- The fields of an object up to its closing brace, at least one.
private def fields : Nat → Reader (List (String × Json))
  | 0, _ => none
  | fuel + 1, cs =>
    match skipBlanks cs with
    | '"' :: rest => do
      let (name, rest) ← textTail (rest.length + 1) [] rest
      match skipBlanks rest with
      | ':' :: rest =>
        let (item, rest) ← value fuel rest
        match skipBlanks rest with
        | ',' :: rest =>
          let (more, rest) ← fields fuel rest
          some ((name, item) :: more, rest)
        | '\x7d' :: rest => some ([(name, item)], rest)
        | _ => none
      | _ => none
    | _ => none

end

-- The value a text stands for, with nothing but blanks around it.
def parse? (text : String) : Option Json := do
  let cs := text.toList
  let (json, rest) ← value (cs.length + 1) cs
  if (skipBlanks rest).isEmpty then some json else none

end SpriteCompiler.Json
