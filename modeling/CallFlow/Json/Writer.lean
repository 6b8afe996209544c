/-
Writing JSON text.

A document is an ordered tree of members and items; it is laid out either on one
line without blanks, or with one item a line, indented by two spaces.
-/

namespace CallFlow.Json

/-- A JSON document. A number is held as its text. -/
inductive Document where
  | number (text : String)
  | text (s : String)
  | list (items : List Document)
  | object (members : List (String × Document))

/-- The four hexadecimal digits of a code point below `0x10000`. -/
def hex4 (n : Nat) : List Char :=
  [n / 4096 % 16, n / 256 % 16, n / 16 % 16, n % 16].map Nat.digitChar

/-- How a character stands in a string: only the quote, the backslash
and the control characters are escaped. -/
def stringChar (c : Char) : List Char :=
  if c = '"' then ['\\', '"']
  else if c = '\\' then ['\\', '\\']
  else if c = '\n' then ['\\', 'n']
  else if c = '\t' then ['\\', 't']
  else if c = '\r' then ['\\', 'r']
  else if c = '\x08' then ['\\', 'b']
  else if c = '\x0c' then ['\\', 'f']
  else if c.toNat < 0x20 then '\\' :: 'u' :: hex4 c.toNat
  else [c]

/-- A string between its quotes. -/
def stringText (s : String) : List Char :=
  '"' :: s.toList.flatMap stringChar ++ ['"']

/-- A line end and the indentation of a depth. -/
def newline (depth : Nat) : List Char :=
  '\n' :: List.replicate (2 * depth) ' '

namespace Document

mutual

/-- The text on one line. -/
def compact : Document → List Char
  | number t => t.toList
  | text s => stringText s
  | list [] => ['[', ']']
  | list (d :: ds) => '[' :: compact d ++ compactItems ds ++ [']']
  | object [] => ['\x7b', '\x7d']
  | object ((key, d) :: ms) =>
    '\x7b' :: stringText key ++ ':' :: compact d ++ compactMembers ms ++ ['\x7d']

/-- The items after the first, each behind a comma. -/
def compactItems : List Document → List Char
  | [] => []
  | d :: ds => ',' :: compact d ++ compactItems ds

/-- The members after the first, each behind a comma. -/
def compactMembers : List (String × Document) → List Char
  | [] => []
  | (key, d) :: ms => ',' :: stringText key ++ ':' :: compact d ++ compactMembers ms

end

mutual

/-- The text with one item a line, at a depth of indentation. -/
def pretty (depth : Nat) : Document → List Char
  | number t => t.toList
  | text s => stringText s
  | list [] => ['[', ']']
  | list (d :: ds) =>
    '[' :: newline (depth + 1) ++ pretty (depth + 1) d ++ prettyItems (depth + 1) ds
      ++ newline depth ++ [']']
  | object [] => ['\x7b', '\x7d']
  | object ((key, d) :: ms) =>
    '\x7b' :: newline (depth + 1) ++ stringText key ++ ':' :: ' ' :: pretty (depth + 1) d
      ++ prettyMembers (depth + 1) ms ++ newline depth ++ ['\x7d']

/-- The items after the first, each on a line of its own. -/
def prettyItems (depth : Nat) : List Document → List Char
  | [] => []
  | d :: ds => ',' :: newline depth ++ pretty depth d ++ prettyItems depth ds

/-- The members after the first, each on a line of its own. -/
def prettyMembers (depth : Nat) : List (String × Document) → List Char
  | [] => []
  | (key, d) :: ms =>
    ',' :: newline depth ++ stringText key ++ ':' :: ' ' :: pretty depth d
      ++ prettyMembers depth ms

end

end Document

end CallFlow.Json
