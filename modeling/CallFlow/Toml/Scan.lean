/-
Scanning TOML text: blanks, comments, strings and keys.

A scanner consumes the start of a text or refuses it. No reason is given, because
nobody asks for one.
-/

namespace CallFlow.Toml

/-- A scanner of a text. -/
abbrev Scan (α : Type) : Type :=
  StateT (List Char) Option α

namespace Scan

/-- Refuses the text. -/
def refuse {α : Type} : Scan α :=
  fun _ => none

/-- The next character, if there is one. -/
def peek? : Scan (Option Char) :=
  fun cs => some (cs.head?, cs)

/-- Consumes a text if it comes next, and says whether it did. -/
def accept (text : List Char) : Scan Bool :=
  fun cs => some (if text.isPrefixOf cs then (true, cs.drop text.length) else (false, cs))

/-- Consumes a text that must come next. -/
def expect (text : List Char) : Scan Unit := do
  if !(← accept text) then refuse

/-- Consumes the longest run of characters of a class. -/
def takeWhile (p : Char → Bool) : Scan (List Char) :=
  fun cs => some (cs.takeWhile p, cs.dropWhile p)

/-- The number of characters that are left. -/
def remaining : Scan Nat :=
  fun cs => some (cs.length, cs)

end Scan

-- ================================================================ blanks

/-- A blank inside a line. -/
def isBlank (c : Char) : Bool :=
  c == ' ' || c == '\t'

/-- A character that comments and strings may hold as it is. -/
def isText (c : Char) : Bool :=
  c == '\t' || (0x20 ≤ c.toNat && c.toNat != 0x7F)

/-- Skips the blanks of a line. -/
def blanks : Scan Unit := do
  let _ ← Scan.takeWhile isBlank

/-- Consumes the end of a line, and says whether there was one. -/
def lineEnd : Scan Bool := do
  if ← Scan.accept ['\n'] then return true
  Scan.accept ['\r', '\n']

/-- Skips a comment, if there is one. -/
def comment : Scan Unit := do
  if ← Scan.accept ['#'] then
    let _ ← Scan.takeWhile isText

/-- Skips what may follow a statement on its line, and the end of the
line or of the text. -/
def restOfLine : Scan Unit := do
  blanks
  comment
  if !(← lineEnd) then
    if (← Scan.peek?).isSome then Scan.refuse

/-- Skips blanks, comments and ends of lines. -/
def blankLines : (budget : Nat) → Scan Unit
  | 0 => pure ()
  | budget + 1 => do
    blanks
    comment
    if ← lineEnd then blankLines budget

/-- Skips blanks, comments and ends of lines, as many as there are. -/
def layout : Scan Unit := do
  blankLines (← Scan.remaining)

-- =============================================================== strings

/-- The value of a hexadecimal digit. -/
def hexValue? (c : Char) : Option Nat :=
  if '0' ≤ c ∧ c ≤ '9' then some (c.toNat - '0'.toNat)
  else if 'a' ≤ c ∧ c ≤ 'f' then some (c.toNat - 'a'.toNat + 10)
  else if 'A' ≤ c ∧ c ≤ 'F' then some (c.toNat - 'A'.toNat + 10)
  else none

/-- The character with a number in hexadecimal digits. Surrogates have
none. -/
def hexChar? (digits : List Char) : Option Char := do
  let n ← digits.foldlM (fun n c => return 16 * n + (← hexValue? c)) 0
  if n.isValidChar then some (Char.ofNat n) else none

/-- A character given by exactly so many hexadecimal digits. -/
def hexEscape? (width : Nat) (cs : List Char) : Option (Char × List Char) := do
  if cs.length < width then none
  return (← hexChar? (cs.take width), cs.drop width)

/-- What stands for a character after a backslash, and the rest. -/
def escape? : List Char → Option (Char × List Char)
  | 'b' :: cs => some ('\x08', cs)
  | 't' :: cs => some ('\t', cs)
  | 'n' :: cs => some ('\n', cs)
  | 'f' :: cs => some ('\x0c', cs)
  | 'r' :: cs => some ('\r', cs)
  | '"' :: cs => some ('"', cs)
  | '\\' :: cs => some ('\\', cs)
  | 'u' :: cs => hexEscape? 4 cs
  | 'U' :: cs => hexEscape? 8 cs
  | _ => none

/-- Drops blanks and ends of lines. -/
def dropBlankLines : List Char → List Char
  | '\r' :: '\n' :: cs => dropBlankLines cs
  | c :: cs => if c = ' ' ∨ c = '\t' ∨ c = '\n' then dropBlankLines cs else c :: cs
  | [] => []

/-- The text after a backslash that ends a line: the next line goes on
where it starts. -/
def joinLine? (cs : List Char) : Option (List Char) :=
  match cs.dropWhile isBlank with
  | '\n' :: rest => some (dropBlankLines rest)
  | '\r' :: '\n' :: rest => some (dropBlankLines rest)
  | _ => none

/-- Puts characters before the text of a string that was read. -/
def before (cs : List Char) (read : Option (List Char × List Char)) :
    Option (List Char × List Char) :=
  read.map fun (text, rest) => (cs ++ text, rest)

/-- The rest of a string on one line. Only a string between double
quotes has escapes. -/
def lineString (quote : Char) : (budget : Nat) → List Char → Option (List Char × List Char)
  | 0, _ => none
  | _, [] => none
  | budget + 1, c :: cs =>
    if c = quote then some ([], cs)
    else if c = '\\' ∧ quote = '"' then do
      let (e, cs) ← escape? cs
      before [e] (lineString quote budget cs)
    else if isText c then before [c] (lineString quote budget cs)
    else none

/-- The rest of a string over several lines. Three quotes end it, and up
to two more before them belong to it. -/
def blockString (quote : Char) : (budget : Nat) → List Char → Option (List Char × List Char)
  | 0, _ => none
  | _, [] => none
  | budget + 1, c :: cs =>
    if c = quote then
      let quotes := 1 + (cs.takeWhile fun d => d == quote).length
      if 3 ≤ quotes then
        let own := min quotes 5 - 3
        some (List.replicate own quote, (c :: cs).drop (own + 3))
      else before [c] (blockString quote budget cs)
    else if c = '\\' ∧ quote = '"' then
      match joinLine? cs with
      | some cs => blockString quote budget cs
      | none => do
        let (e, cs) ← escape? cs
        before [e] (blockString quote budget cs)
    else if c = '\r' ∧ cs.head? = some '\n' then blockString quote budget cs
    else if c = '\n' ∨ isText c then before [c] (blockString quote budget cs)
    else none

/-- A string on one line in the given quotes, of which the first comes
next. -/
def quotedLine (quote : Char) : Scan String := do
  Scan.expect [quote]
  fun cs => do
    let (text, rest) ← lineString quote (cs.length + 1) cs
    return (String.ofList text, rest)

/-- A string in the given quotes, of which the first comes next. An end
of line right after three quotes is left out. -/
def quotedString (quote : Char) : Scan String := do
  if ← Scan.accept [quote, quote, quote] then
    let _ ← lineEnd
    fun cs => do
      let (text, rest) ← blockString quote (cs.length + 1) cs
      return (String.ofList text, rest)
  else quotedLine quote

-- ================================================================== keys

/-- A character of a key without quotes. -/
def isKeyChar (c : Char) : Bool :=
  c.isAlphanum || c == '_' || c == '-'

/-- One part of a key. -/
def keyPart : Scan String := do
  match ← Scan.peek? with
  | some '"' => quotedLine '"'
  | some '\'' => quotedLine '\''
  | _ =>
    let cs ← Scan.takeWhile isKeyChar
    if cs.isEmpty then Scan.refuse else return String.ofList cs

/-- The parts of a key, with points between. -/
def keyParts : (budget : Nat) → Scan (List String)
  | 0 => Scan.refuse
  | budget + 1 => do
    blanks
    let part ← keyPart
    blanks
    if ← Scan.accept ['.'] then return part :: (← keyParts budget)
    return [part]

/-- The number of levels that keys and values stay below. -/
def maxLevels : Nat := 80

/-- A key, as the names on the way to its table and its own name. -/
def key : Scan (List String × String) := do
  let parts ← keyParts (← Scan.remaining)
  if maxLevels ≤ parts.length then Scan.refuse
  match parts.getLast? with
  | some name => return (parts.dropLast, name)
  | none => Scan.refuse

end CallFlow.Toml
