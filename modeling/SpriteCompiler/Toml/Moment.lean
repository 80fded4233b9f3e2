namespace SpriteCompiler.Toml

-- Two digits that stand for a number within bounds.
def isPair (low high : Nat) (a b : Char) : Bool :=
  let n := (a.toNat - '0'.toNat) * 10 + (b.toNat - '0'.toNat)
  a.isDigit && b.isDigit && low ≤ n && n ≤ high

def daysInMonth (year month : Nat) : Nat :=
  if month = 2 then
    if year % 4 = 0 ∧ (year % 100 ≠ 0 ∨ year % 400 = 0) then 29 else 28
  else if month = 4 ∨ month = 6 ∨ month = 9 ∨ month = 11 then 30
  else 31

-- A day of the calendar: a year of four digits, a month and a day.
def isDate : List Char → Bool
  | [y1, y2, y3, y4, '-', m1, m2, '-', d1, d2] =>
    let number (ds : List Char) : Nat := ds.foldl (fun n d => n * 10 + (d.toNat - '0'.toNat)) 0
    [y1, y2, y3, y4].all Char.isDigit && isPair 1 12 m1 m2 &&
      isPair 1 (daysInMonth (number [y1, y2, y3, y4]) (number [m1, m2])) d1 d2
  | _ => false

-- The distance from universal time.
def isOffset : List Char → Bool
  | ['Z'] => true
  | ['z'] => true
  | [sign, h1, h2, ':', m1, m2] =>
    (sign == '+' || sign == '-') && isPair 0 23 h1 h2 && isPair 0 59 m1 m2
  | _ => false

-- Hours, minutes and seconds, of which a leap second may be the last, with any number of places.
-- What stands after them has to satisfy `isTail`.
def isTimeThen (isTail : List Char → Bool) : List Char → Bool
  | h1 :: h2 :: ':' :: m1 :: m2 :: ':' :: s1 :: s2 :: rest =>
    isPair 0 23 h1 h2 && isPair 0 59 m1 m2 && isPair 0 60 s1 s2 &&
      match rest with
      | '.' :: d :: rest => d.isDigit && isTail (rest.dropWhile Char.isDigit)
      | rest => isTail rest
  | _ => false

-- A time of day by itself.
def isTime (cs : List Char) : Bool :=
  isTimeThen List.isEmpty cs

-- A time of day that follows a date.
def isTimeOfDate (cs : List Char) : Bool :=
  isTimeThen (fun rest => rest.isEmpty || isOffset rest) cs

-- A date, a time of day, or a date and a time with a mark between them.
def isMoment (cs : List Char) : Bool :=
  isDate cs || isTime cs ||
    match cs.drop 10 with
    | mark :: time => isDate (cs.take 10) && (mark == 'T' || mark == 't') && isTimeOfDate time
    | [] => false

end SpriteCompiler.Toml
