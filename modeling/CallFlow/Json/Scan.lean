/-
The lexical level of a JSON text: blanks, words, strings, and passing over a
value that nobody asked for.

A `Step` takes what is left of the text and returns a value with what is left
after it. The string scanner is a small machine on characters, so that it is a
recursion on the text; so is the scanner that passes over values, which keeps
the lists and objects it is in on a stack and nests without limit.
-/
import CallFlow.Json.Number

namespace CallFlow.Json

/-- One reading step: a value and the rest of the text, or the first
fault. -/
def Step (α : Type) : Type :=
  List Char → Except Fault (α × List Char)

/-- A blank between tokens. -/
def isBlank (c : Char) : Bool :=
  c == ' ' || c == '\n' || c == '\t' || c == '\r'

/-- The text from the next token on. -/
def skipBlank (cs : List Char) : List Char :=
  cs.dropWhile isBlank

/-- Reads the rest of a word such as `null` after its first letter. -/
def word : List Char → List Char → Except Fault (List Char)
  | [], cs => .ok cs
  | _ :: _, [] => .error .endOfValue
  | w :: ws, c :: cs => if c = w then word ws cs else .error .expectedIdent

-- ============================================================== strings

/-- The value of a hexadecimal digit. -/
def hexValue? (c : Char) : Option Nat :=
  if '0' ≤ c ∧ c ≤ '9' then some (c.toNat - '0'.toNat)
  else if 'a' ≤ c ∧ c ≤ 'f' then some (c.toNat - 'a'.toNat + 10)
  else if 'A' ≤ c ∧ c ≤ 'F' then some (c.toNat - 'A'.toNat + 10)
  else none

/-- The character a one-letter escape stands for. -/
def shortEscape? : Char → Option Char
  | '"' => some '"'
  | '\\' => some '\\'
  | '/' => some '/'
  | 'b' => some '\x08'
  | 'f' => some '\x0c'
  | 'n' => some '\n'
  | 'r' => some '\r'
  | 't' => some '\t'
  | _ => none

/-- The number of bytes of a text. -/
def byteLength (cs : List Char) : Nat :=
  cs.foldl (fun n c => n + c.utf8Size) 0

/-- The fault of a hexadecimal escape that breaks off before the text
`cs` with `seen` digits read: with fewer than four bytes the text itself
is at its end. -/
def brokenEscape (seen : Nat) (cs : List Char) : Fault :=
  if seen + byteLength cs < 4 then .endOfString else .invalidEscape

/-- Where the scanner of a string stands. -/
inductive StringState where
  /-- Between characters. -/
  | plain
  /-- After a backslash. -/
  | escape
  /-- In a hexadecimal escape with `seen` digits read. The second half
  of a surrogate pair knows the first. -/
  | hex (first : Option Nat) (seen : Nat) (value : Nat)
  /-- After the first half of a surrogate pair. -/
  | pair (first : Nat)
  /-- After the first half and a backslash. -/
  | pairEscape (first : Nat)

/-- The state after a complete hexadecimal escape, and the character it
gave. -/
def hexDone (first : Option Nat) (value : Nat) : Except Fault (Option Char × StringState) :=
  match first with
  | none =>
    if 0xDC00 ≤ value ∧ value ≤ 0xDFFF then .error .lonelySurrogate
    else if 0xD800 ≤ value ∧ value ≤ 0xDBFF then .ok (none, .pair value)
    else .ok (some (Char.ofNat value), .plain)
  | some high =>
    if 0xDC00 ≤ value ∧ value ≤ 0xDFFF then
      .ok (some (Char.ofNat ((high - 0xD800) * 1024 + (value - 0xDC00) + 0x10000)), .plain)
    else .error .lonelySurrogate

/-- Reads the rest of a string after its opening quote. -/
def stringRest : StringState → Step (List Char)
  | _, [] => .error .endOfString
  | .plain, c :: cs =>
    if c = '"' then .ok ([], cs)
    else if c = '\\' then stringRest .escape cs
    else if c.toNat < 0x20 then .error .controlCharacter
    else (stringRest .plain cs).map fun (s, rest) => (c :: s, rest)
  | .escape, c :: cs =>
    if c = 'u' then stringRest (.hex none 0 0) cs
    else
      match shortEscape? c with
      | none => .error .invalidEscape
      | some e => (stringRest .plain cs).map fun (s, rest) => (e :: s, rest)
  | .hex first seen value, c :: cs =>
    match hexValue? c with
    | none => .error (brokenEscape seen (c :: cs))
    | some d =>
      let value := value * 16 + d
      if seen < 3 then stringRest (.hex first (seen + 1) value) cs
      else
        match hexDone first value with
        | .error e => .error e
        | .ok (none, state) => stringRest state cs
        | .ok (some e, state) => (stringRest state cs).map fun (s, rest) => (e :: s, rest)
  | .pair first, c :: cs =>
    if c = '\\' then stringRest (.pairEscape first) cs else .error .unfinishedPair
  | .pairEscape first, c :: cs =>
    if c = 'u' then stringRest (.hex (some first) 0 0) cs else .error .unfinishedPair

/-- Where the scanner of a string to be passed over stands. -/
inductive SkipState where
  | plain
  | escape
  | hex (seen : Nat)

/-- Passes over the rest of a string, with no regard to surrogate pairs. -/
def skipString : SkipState → List Char → Except Fault (List Char)
  | _, [] => .error .endOfString
  | .plain, c :: cs =>
    if c = '"' then .ok cs
    else if c = '\\' then skipString .escape cs
    else if c.toNat < 0x20 then .error .controlCharacter
    else skipString .plain cs
  | .escape, c :: cs =>
    if c = 'u' then skipString (.hex 0) cs
    else if (shortEscape? c).isSome then skipString .plain cs
    else .error .invalidEscape
  | .hex seen, c :: cs =>
    if (hexValue? c).isNone then .error (brokenEscape seen (c :: cs))
    else skipString (if seen < 3 then .hex (seen + 1) else .plain) cs

-- ================================================= passing over a value

/-- What encloses a value that is passed over. -/
inductive Frame where
  | list
  | object

/-- The fault of a text that ends inside a frame. -/
def Frame.ended : Frame → Fault
  | list => .endOfList
  | object => .endOfObject

/-- The fault of an item that is followed by neither comma nor end. -/
def Frame.unended : Frame → Fault
  | list => .expectedListEnd
  | object => .expectedObjectEnd

/-- The character that ends a frame. -/
def Frame.closer : Frame → Char
  | list => ']'
  | object => '\x7d'

/-- Passes over a key and its colon. -/
def skipKey (cs : List Char) : Except Fault (List Char) := do
  match skipBlank cs with
  | [] => .error .endOfObject
  | '"' :: cs =>
    match skipBlank (← skipString .plain cs) with
    | [] => .error .endOfObject
    | ':' :: cs => return cs
    | _ => .error .expectedColon
  | _ => .error .keyNotText

/-- Passes over a key if the frame has keys. -/
def Frame.skipKey : Frame → List Char → Except Fault (List Char)
  | list, cs => .ok cs
  | object, cs => Json.skipKey cs

/-- Passes over a value that is neither a list nor an object. -/
def skipScalar (c : Char) (cs : List Char) : Except Fault (List Char) :=
  if c = 'n' then word ['u', 'l', 'l'] cs
  else if c = 't' then word ['r', 'u', 'e'] cs
  else if c = 'f' then word ['a', 'l', 's', 'e'] cs
  else if c = '-' then Number.skip cs
  else if c.isDigit then Number.skip (c :: cs)
  else if c = '"' then skipString .plain cs
  else .error .expectedValue

/-- Where the scanner of a value to be passed over stands. -/
inductive SkipPlace where
  /-- In front of a value. -/
  | value
  /-- Behind a value. -/
  | behind

/-- Passes over a value inside the given frames. Every round reads at
least one character, so `budget` rounds are enough for a text of that
length. -/
def skipRounds : (budget : Nat) → SkipPlace → List Frame → List Char → Except Fault (List Char)
  | _, .behind, [], cs => .ok cs
  | 0, .behind, frame :: _, _ => .error frame.ended
  | 0, .value, _, _ => .error .endOfValue
  | budget + 1, .behind, frame :: frames, cs => do
    match skipBlank cs with
    | [] => .error frame.ended
    | c :: cs =>
      if c = ',' then skipRounds budget .value (frame :: frames) (← frame.skipKey cs)
      else if c = frame.closer then skipRounds budget .behind frames cs
      else .error frame.unended
  | budget + 1, .value, frames, cs => do
    match skipBlank cs with
    | [] => .error .endOfValue
    | c :: cs =>
      let frame? : Option Frame :=
        if c = '[' then some .list else if c = '\x7b' then some .object else none
      match frame? with
      | none => skipRounds budget .behind frames (← skipScalar c cs)
      | some frame =>
        match skipBlank cs with
        | [] => .error frame.ended
        | c :: cs =>
          if c = frame.closer then skipRounds budget .behind frames cs
          else skipRounds budget .value (frame :: frames) (← frame.skipKey (c :: cs))

/-- Passes over one value. -/
def skipValue (cs : List Char) : Except Fault (List Char) :=
  skipRounds cs.length .value [] cs

end CallFlow.Json
