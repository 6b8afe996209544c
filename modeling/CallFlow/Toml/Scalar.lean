/-
Values that are a bare word: numbers, dates and times, true and false.

A word is as long as it can be, because no character of a word may follow a value.
-/
import CallFlow.Toml.Value

namespace CallFlow.Toml

/-- A character of a bare word. -/
def isWordChar (c : Char) : Bool :=
  c.isAlphanum || c == '+' || c == '-' || c == '.' || c == ':' || c == '_'

-- ================================================================ numbers

/-- Digits of a class, with single underscores between some of them,
which are dropped. -/
def digits? (isDigit : Char → Bool) : List Char → Option (List Char)
  | [] => none
  | [c] => if isDigit c then some [c] else none
  | c :: '_' :: cs => if isDigit c then (digits? isDigit cs).map (c :: ·) else none
  | c :: cs => if isDigit c then (digits? isDigit cs).map (c :: ·) else none

/-- The number that digits up to `f` stand for in a base. -/
def numeral (base : Nat) (digits : List Char) : Nat :=
  digits.foldl (fun n c =>
    base * n + (if c.isDigit then c.toNat - '0'.toNat else c.toLower.toNat - 'a'.toNat + 10)) 0

/-- A sign, if there is one, and the rest; it holds when the sign is a
minus. -/
def sign : List Char → Bool × List Char
  | '+' :: cs => (false, cs)
  | '-' :: cs => (true, cs)
  | cs => (false, cs)

/-- The digits of a decimal number, which has no leading zero. -/
def decimal? (cs : List Char) : Option (List Char) := do
  let ds ← digits? Char.isDigit cs
  if ds.head? = some '0' ∧ ds.length ≠ 1 then none else some ds

/-- The 64-bit integer with a value. -/
def word? (n : Int) : Option Int64 :=
  if -0x8000000000000000 ≤ n ∧ n < 0x8000000000000000 then some (Int64.ofInt n) else none

/-- Whether a character is a digit in a base up to sixteen. -/
def isDigitIn (base : Nat) (c : Char) : Bool :=
  (c.isDigit && c.toNat - '0'.toNat < base)
    || (base == 16 && (('a' ≤ c && c ≤ 'f') || ('A' ≤ c && c ≤ 'F')))

/-- An integer in a base other than ten. -/
def based? (base : Nat) (cs : List Char) : Option Int64 := do
  word? (numeral base (← digits? (isDigitIn base) cs))

/-- An integer. -/
def integer? : List Char → Option Int64
  | '0' :: 'x' :: cs => based? 16 cs
  | '0' :: 'o' :: cs => based? 8 cs
  | '0' :: 'b' :: cs => based? 2 cs
  | cs => do
    let (negative, cs) := sign cs
    let n := numeral 10 (← decimal? cs)
    word? (if negative then -(n : Int) else n)

/-- The float nearest to `significand · 10 ^ exponent`. Beyond 310
digits before the point every number is infinite, and beyond 330 zeros
after it every number is zero. -/
def scaled (negative : Bool) (significand : Nat) (exponent : Int) : Binary64 :=
  let places := (toString significand).length + exponent
  if significand = 0 ∨ places < -330 then .zero negative
  else if 310 < places then .infinity negative
  else if 0 ≤ exponent then .ofRatio negative (significand * Nat.pow 10 exponent.toNat) 1
  else .ofRatio negative significand (Nat.pow 10 (-exponent).toNat)

/-- The exponent of a float. -/
def exponent? (cs : List Char) : Option Int := do
  let (negative, cs) := sign cs
  let n := numeral 10 (← digits? Char.isDigit cs)
  return if negative then -(n : Int) else n

/-- The digits of a fraction, if there is one, and the rest, if there is
more. -/
def fraction? : List Char → Option (List Char × List Char)
  | [] => none
  | '.' :: cs =>
    let isDigits := fun (c : Char) => c.isDigit || c == '_'
    (digits? Char.isDigit (cs.takeWhile isDigits)).map fun ds => (ds, cs.dropWhile isDigits)
  | cs => some ([], cs)

/-- The exponent at the end of a float, zero if there is none. -/
def scale? : List Char → Option Int
  | [] => some 0
  | c :: cs => if c = 'e' ∨ c = 'E' then exponent? cs else none

/-- A finite float, or one below all finite ones. It has a fraction, an
exponent or both. -/
def float? (cs : List Char) : Option Binary64 := do
  let (negative, cs) := sign cs
  let isDigits := fun (c : Char) => c.isDigit || c == '_'
  let whole ← decimal? (cs.takeWhile isDigits)
  let (fraction, rest) ← fraction? (cs.dropWhile isDigits)
  let exponent ← scale? rest
  let x := scaled negative (numeral 10 (whole ++ fraction)) (exponent - fraction.length)
  if x = .infinity false then none else some x

/-- A float that is no number or infinite. -/
def special? (cs : List Char) : Option Binary64 :=
  let (negative, cs) := sign cs
  match String.ofList cs with
  | "inf" => some (.infinity negative)
  | "nan" => some ⟨if negative then 0xFFF8000000000000 else 0x7FF8000000000000⟩
  | _ => none

-- ======================================================== dates and times

/-- A number of exactly so many digits, between bounds, and the rest. -/
def field? (width low high : Nat) (cs : List Char) : Option (Nat × List Char) :=
  let ds := cs.take width
  let n := numeral 10 ds
  if ds.length = width ∧ ds.all Char.isDigit ∧ low ≤ n ∧ n ≤ high then some (n, cs.drop width)
  else none

/-- The rest after a character that must come next. -/
def after? (c : Char) : List Char → Option (List Char)
  | d :: cs => if c = d then some cs else none
  | [] => none

/-- The number of days of a month. -/
def daysIn (year month : Nat) : Nat :=
  if month = 2 then
    if year % 4 = 0 ∧ (year % 100 ≠ 0 ∨ year % 400 = 0) then 29 else 28
  else if month = 4 ∨ month = 6 ∨ month = 9 ∨ month = 11 then 30
  else 31

/-- The rest after a date. -/
def date? (cs : List Char) : Option (List Char) := do
  let (year, cs) ← field? 4 0 9999 cs
  let (month, cs) ← field? 2 1 12 (← after? '-' cs)
  let (_, cs) ← field? 2 1 (daysIn year month) (← after? '-' cs)
  return cs

/-- The rest after a time of day. -/
def time? (cs : List Char) : Option (List Char) := do
  let (_, cs) ← field? 2 0 23 cs
  let (_, cs) ← field? 2 0 59 (← after? ':' cs)
  let (_, cs) ← field? 2 0 60 (← after? ':' cs)
  match cs with
  | '.' :: cs => if (cs.takeWhile Char.isDigit).isEmpty then none else some (cs.dropWhile Char.isDigit)
  | cs => some cs

/-- The rest after hours and minutes. -/
def hours? (cs : List Char) : Option (List Char) := do
  let (_, cs) ← field? 2 0 23 cs
  let (_, cs) ← field? 2 0 59 (← after? ':' cs)
  return cs

/-- Whether a text is a distance from universal time, or nothing. -/
def isOffset : List Char → Bool
  | [] => true
  | ['Z'] => true
  | ['z'] => true
  | c :: cs => (c == '+' || c == '-') && (hours? cs).any List.isEmpty

/-- Whether a text is a time of day with a distance from universal time
or without. -/
def isZonedTime (cs : List Char) : Bool :=
  (time? cs).any isOffset

/-- Whether a text is a date. -/
def isDate (cs : List Char) : Bool :=
  (date? cs).any List.isEmpty

/-- Whether a text is a date, a time, or both with a `T` between. -/
def isMoment (cs : List Char) : Bool :=
  match date? cs with
  | some [] => true
  | some (c :: cs) => (c == 'T' || c == 't') && isZonedTime cs
  | none => (time? cs).any List.isEmpty

-- ================================================================== words

/-- The value of a bare word. -/
def word (cs : List Char) : Option Value :=
  match String.ofList cs with
  | "true" => some (.boolean true)
  | "false" => some (.boolean false)
  | text =>
    if isMoment cs then some (.moment text)
    else
      (integer? cs).map Value.integer
        <|> (float? cs).map Value.float
        <|> (special? cs).map Value.float

end CallFlow.Toml
