import SpriteCompiler.Toml.Moment
import SpriteCompiler.Toml.Number
import SpriteCompiler.Toml.Value

namespace SpriteCompiler.Toml

-- What a line says.
inductive Line where
  -- the following entries belong to this table
  | header (path : List String)
  | entry (path : List String) (value : Value)

-- The characters of numbers, truth values, dates and times.
private def isWordChar (c : Char) : Bool :=
  c.isAlphanum || c == '_' || c == '+' || c == '-' || c == '.' || c == ':'

private def wordValue? (word : List Char) : Option Value :=
  match String.ofList word with
  | "true" => some (.boolean true)
  | "false" => some (.boolean false)
  | written =>
    if isMoment word then some (.moment written)
    else ((integer? word).map .integer).or ((float? word).map .float)

-- A value in one word, or a date and a time with a blank between them.
private def word (cs : List Char) : Option (Value × List Char) :=
  let first := cs.takeWhile isWordChar
  let rest := cs.drop first.length
  let second := (rest.drop 1).takeWhile isWordChar
  if isDate first && rest.head? == some ' ' && isTimeOfDate second then
    some (.moment (String.ofList (first ++ ' ' :: second)), rest.drop (second.length + 1))
  else (wordValue? first).map fun v => (v, rest)

mutual

-- One value, whose arrays and tables are nested at most `depth` deep. Each step uses up one unit of
-- fuel and at least one character.
private def value : (fuel depth : Nat) → Reader Value
  | 0, _, _ => none
  | fuel + 1, depth, cs =>
    match cs, depth with
    | '[' :: rest, depth + 1 => (items fuel depth rest).map fun (xs, rest) => (.array xs, rest)
    | '\x7b' :: rest, depth + 1 =>
      match skipBlanks rest with
      | '\x7d' :: rest => some (.table [] false, rest)
      | rest => (fields fuel depth [] rest).map fun (xs, rest) => (.table xs false, rest)
    | '"' :: _, _ => (text cs).map fun (s, rest) => (.text s, rest)
    | '\'' :: _, _ => (text cs).map fun (s, rest) => (.text s, rest)
    | _, _ => word cs

-- The items of an array up to its closing bracket. Line ends and comments may stand between them,
-- and a comma after the last.
private def items : (fuel depth : Nat) → Reader (List Value)
  | 0, _, _ => none
  | fuel + 1, depth, cs =>
    match skipLines (cs.length + 1) cs with
    | ']' :: rest => some ([], rest)
    | cs => do
      let (item, rest) ← value fuel depth cs
      match skipLines (rest.length + 1) rest with
      | ',' :: rest =>
        let (more, rest) ← items fuel depth rest
        some (item :: more, rest)
      | ']' :: rest => some ([item], rest)
      | _ => none

-- The fields of an inline table up to its closing brace, at least one, all in one line. They are
-- added to those before them.
private def fields : (fuel depth : Nat) → List (String × Value) → Reader (List (String × Value))
  | 0, _, _, _ => none
  | fuel + 1, depth, before, cs => do
    let (path, rest) ← key cs
    match rest with
    | '=' :: rest =>
      let (item, rest) ← value fuel depth (skipBlanks rest)
      let all ← item.insert? path before
      match skipBlanks rest with
      | ',' :: rest => fields fuel depth all rest
      | '\x7d' :: rest => some (all, rest)
      | _ => none
    | _ => none

end

-- One line that says something, up to the beginning of the next line.
private def line (cs : List Char) : Option (Line × List Char) :=
  match cs with
  | '[' :: rest => do
    let (path, rest) ← key rest
    match rest with
    | ']' :: rest => (lineEnd? rest).map fun rest => (.header path, rest)
    | _ => none
  | _ => do
    let (path, rest) ← key cs
    match rest with
    | '=' :: rest =>
      let (v, rest) ← value (rest.length + 1) maxNesting (skipBlanks rest)
      (lineEnd? rest).map fun rest => (.entry path v, rest)
    | _ => none

private def linesFrom : Nat → List Char → Option (List Line)
  | 0, _ => none
  | fuel + 1, cs =>
    match skipLines (cs.length + 1) cs with
    | [] => some []
    | cs => do
      let (first, rest) ← line cs
      let others ← linesFrom fuel rest
      some (first :: others)

-- The lines of a document. A byte order mark at its beginning means nothing.
def lines? (document : String) : Option (List Line) :=
  let cs := match document.toList with
    | '\ufeff' :: rest => rest
    | cs => cs
  linesFrom (cs.length + 1) cs

end SpriteCompiler.Toml
