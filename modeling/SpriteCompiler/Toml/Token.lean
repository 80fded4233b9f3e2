namespace SpriteCompiler.Toml

abbrev Reader (α : Type) := List Char → Option (α × List Char)

def skipBlanks (cs : List Char) : List Char :=
  cs.dropWhile fun c => c == ' ' || c == '\t'

-- What may stand in a comment or, quotes and backslashes aside, in a text: no controls but the tab.
def isPlain (c : Char) : Bool :=
  c == '\t' || (0x20 ≤ c.toNat && c.toNat != 0x7F)

def skipComment : List Char → List Char
  | '#' :: rest => rest.dropWhile isPlain
  | cs => cs

def newline? : List Char → Option (List Char)
  | '\n' :: rest => some rest
  | '\r' :: '\n' :: rest => some rest
  | _ => none

-- The end of a line, after blanks and a comment. The end of the text ends its last line.
def lineEnd? (cs : List Char) : Option (List Char) :=
  match skipComment (skipBlanks cs) with
  | [] => some []
  | rest => newline? rest

-- Skips blanks, comments and line ends, of which each step takes at least one.
def skipLines : Nat → List Char → List Char
  | 0, cs => cs
  | fuel + 1, cs =>
    let rest := skipBlanks cs
    match skipComment rest with
    | [] => []
    | after =>
      match newline? after with
      | some next => skipLines fuel next
      | none => rest

def isBareKeyChar (c : Char) : Bool :=
  c.isAlphanum || c == '_' || c == '-'

def hexValue? (c : Char) : Option Nat :=
  if '0' ≤ c && c ≤ '9' then some (c.toNat - '0'.toNat)
  else if 'a' ≤ c && c ≤ 'f' then some (c.toNat - 'a'.toNat + 10)
  else if 'A' ≤ c && c ≤ 'F' then some (c.toNat - 'A'.toNat + 10)
  else none

-- The character of a code point written in hexadecimal. Surrogates are not characters.
def scalar? (digits : List Char) : Option Char := do
  let n ← digits.foldlM (fun n d => (hexValue? d).map (n * 16 + ·)) 0
  if h : n.isValidChar then some (Char.ofNatAux n h) else none

def simpleEscape? : Char → Option Char
  | 'b' => some '\x08'
  | 't' => some '\t'
  | 'n' => some '\n'
  | 'f' => some '\x0c'
  | 'r' => some '\r'
  | '"' => some '"'
  | '\\' => some '\\'
  | _ => none

-- One escape, without its backslash.
def escape : Reader Char
  | 'u' :: rest =>
    if rest.length < 4 then none else (scalar? (rest.take 4)).map fun c => (c, rest.drop 4)
  | 'U' :: rest =>
    if rest.length < 8 then none else (scalar? (rest.take 8)).map fun c => (c, rest.drop 8)
  | c :: rest => (simpleEscape? c).map fun e => (e, rest)
  | [] => none

-- A text up to its closing quote, its characters collected in reverse.
def basicTail : Nat → List Char → Reader String
  | 0, _, _ => none
  | fuel + 1, done, cs =>
    match cs with
    | [] => none
    | '"' :: rest => some (String.ofList done.reverse, rest)
    | '\\' :: rest => do
      let (c, rest) ← escape rest
      basicTail fuel (c :: done) rest
    | c :: rest => if isPlain c then basicTail fuel (c :: done) rest else none

-- A text without escapes up to its closing apostrophe.
def literalTail (cs : List Char) : Option (String × List Char) :=
  let isInside (c : Char) : Bool := isPlain c && c != '\''
  match cs.dropWhile isInside with
  | '\'' :: rest => some (String.ofList (cs.takeWhile isInside), rest)
  | _ => none

-- Three quotes end a text of several lines; up to two more before them belong to the text. Given
-- the number of quotes in a row, how many belong to it, and how many are used up.
def closing? (quotes : Nat) : Option (Nat × Nat) :=
  if quotes < 3 then none else some (min quotes 5 - 3, min quotes 5)

-- Skips blanks and line ends. A carriage return alone is neither.
def skipSpace : List Char → List Char
  | '\r' :: '\n' :: rest => skipSpace rest
  | c :: rest => if c = ' ' ∨ c = '\t' ∨ c = '\n' then skipSpace rest else c :: rest
  | [] => []

-- A text of several lines up to its three closing marks, with escapes if `escapes` is true. A
-- backslash at the end of a line joins it with the next text.
def linesTail (mark : Char) (escapes : Bool) : Nat → List Char → Reader String
  | 0, _, _ => none
  | fuel + 1, done, cs =>
    match cs with
    | [] => none
    | c :: rest =>
      if c = mark then
        match closing? (cs.takeWhile (· == mark)).length with
        | some (inside, used) =>
          some (String.ofList (List.replicate inside mark ++ done).reverse, cs.drop used)
        | none => linesTail mark escapes fuel (c :: done) rest
      else if c = '\\' ∧ escapes then
        match newline? (skipBlanks rest) with
        | some next => linesTail mark escapes fuel done (skipSpace next)
        | none =>
          match escape rest with
          | some (e, rest) => linesTail mark escapes fuel (e :: done) rest
          | none => none
      else
        match newline? cs with
        | some next => linesTail mark escapes fuel ('\n' :: done) next
        | none => if isPlain c then linesTail mark escapes fuel (c :: done) rest else none

-- A line end right after the opening marks does not belong to the text.
def skipFirstNewline (cs : List Char) : List Char :=
  (newline? cs).getD cs

-- A text in one line.
def lineText : Reader String
  | '"' :: rest => basicTail (rest.length + 1) [] rest
  | '\'' :: rest => literalTail rest
  | _ => none

-- A text in any of its four forms.
def text : Reader String
  | '"' :: '"' :: '"' :: rest => linesTail '"' true (rest.length + 1) [] (skipFirstNewline rest)
  | '\'' :: '\'' :: '\'' :: rest =>
    linesTail '\'' false (rest.length + 1) [] (skipFirstNewline rest)
  | cs => lineText cs

-- One part of a key.
def simpleKey (cs : List Char) : Option (String × List Char) :=
  let bare := cs.takeWhile isBareKeyChar
  if bare.isEmpty then lineText cs else some (String.ofList bare, cs.drop bare.length)

-- How deep values are nested, and how many parts a key has, at most.
def maxNesting : Nat := 79

-- A key of at most `limit` parts with dots between them, and blanks around the parts.
def keyParts : (limit : Nat) → Reader (List String)
  | 0, _ => none
  | limit + 1, cs => do
    let (first, rest) ← simpleKey (skipBlanks cs)
    match skipBlanks rest with
    | '.' :: rest =>
      let (others, rest) ← keyParts limit rest
      some (first :: others, rest)
    | rest => some ([first], rest)

def key : Reader (List String) :=
  keyParts maxNesting

end SpriteCompiler.Toml
