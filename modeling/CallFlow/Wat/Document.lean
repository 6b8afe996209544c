/-
The text format: s-expressions and their layout.

A document says which s-expressions stand on one line and which are opened on one
line and closed on another. Its text differs from that of the s-expression only
in blanks.
-/
import CallFlow.Text.Utf8

namespace CallFlow.Wat

/-- An s-expression. -/
inductive Sexp where
  /-- A keyword, a number or a plain identifier, written as it is. -/
  | word (text : String)
  /-- A string of bytes. -/
  | string (bytes : List UInt8)
  /-- An identifier that needs quotes. -/
  | quoted (bytes : List UInt8)
  | list (items : List Sexp)

/-- How a byte stands between quotes: printable ASCII as itself, with a
backslash before a quote and a backslash, and every other byte as two
hexadecimal digits. -/
def stringByte (b : UInt8) : List Char :=
  if b = 0x22 ∨ b = 0x5C then ['\\', Char.ofNat b.toNat]
  else if 0x20 ≤ b ∧ b ≤ 0x7E then [Char.ofNat b.toNat]
  else ['\\', Nat.digitChar (b.toNat / 16), Nat.digitChar (b.toNat % 16)]

/-- A string literal. -/
def stringText (bytes : List UInt8) : String :=
  String.ofList ('"' :: bytes.flatMap stringByte ++ ['"'])

namespace Sexp

mutual

/-- The text of an s-expression on one line. -/
def text : Sexp → String
  | word t => t
  | string bytes => stringText bytes
  | quoted bytes => "$" ++ stringText bytes
  | list items => "(" ++ " ".intercalate (texts items) ++ ")"

/-- The texts of s-expressions. -/
def texts : List Sexp → List String
  | [] => []
  | s :: ss => text s :: texts ss

end

end Sexp

/-- An s-expression with its layout. -/
inductive Document where
  /-- On one line. -/
  | line (s : Sexp)
  /-- The first items on one line, each further item laid out below, and
  the closing bracket on a line of its own. -/
  | group (head : List Sexp) (body : List Document)

namespace Document

/-- The indentation of a depth. -/
def pad (depth : Nat) : String :=
  String.ofList (List.replicate (2 * depth) ' ')

mutual

/-- The s-expression that is laid out. -/
def sexp : Document → Sexp
  | line s => s
  | group head body => .list (head ++ sexps body)

/-- The s-expressions that are laid out. -/
def sexps : List Document → List Sexp
  | [] => []
  | d :: ds => sexp d :: sexps ds

end

mutual

/-- The text of a document at a depth. -/
def text (depth : Nat) : Document → String
  | line s => pad depth ++ s.text ++ "\n"
  | group head body =>
    pad depth ++ "(" ++ " ".intercalate (Sexp.texts head) ++ "\n" ++ texts (depth + 1) body
      ++ pad depth ++ ")\n"

/-- The text of documents at a depth. -/
def texts (depth : Nat) : List Document → String
  | [] => ""
  | d :: ds => text depth d ++ texts depth ds

end

end Document

end CallFlow.Wat
