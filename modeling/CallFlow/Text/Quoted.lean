/-
Quoted text: a text between double quotes in which every character that would
not show as itself is escaped.
-/
import CallFlow.Text.Printable

namespace CallFlow.Text

/-- How one character stands between the quotes: a short escape if it
has one, itself if it is printable, and otherwise its code point in
hexadecimal. -/
def quotedChar (c : Char) : List Char :=
  if c = '"' ∨ c = '\\' then ['\\', c]
  else if c = '\n' then ['\\', 'n']
  else if c = '\r' then ['\\', 'r']
  else if c = '\t' then ['\\', 't']
  else if c = '\x00' then ['\\', '0']
  else if isPrintable c then [c]
  else '\\' :: 'u' :: '\x7b' :: Nat.toDigits 16 c.toNat ++ ['\x7d']

/-- The quoted form of a text. -/
def quoted (s : String) : String :=
  String.ofList ('"' :: s.toList.flatMap quotedChar ++ ['"'])

end CallFlow.Text
