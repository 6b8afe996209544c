/-
What can be wrong with a JSON text that should hold a program tree.

A fault is either of the text itself, or says that a value of the wrong kind,
length or name stands where a tree wants another. Reading stops at the first.
-/
import CallFlow.Number.Layout
import CallFlow.Text.Quoted

namespace CallFlow.Json

/-- A value that was met where another kind was wanted. -/
inductive Found where
  | null
  | boolean (b : Bool)
  | integer (n : Int)
  | float (x : Binary64)
  | text (s : String)
  | sequence
  | map
  deriving DecidableEq

/-- How a fault describes the value that was met. -/
def Found.describe : Found → String
  | null => "null"
  | boolean true => "boolean `true`"
  | boolean false => "boolean `false`"
  | integer n => "integer `" ++ toString n ++ "`"
  | float x => "floating point `" ++ Layout.tree.text x ++ "`"
  | text s => "string " ++ Text.quoted s
  | sequence => "sequence"
  | map => "map"

/-- The kind of value that was wanted. -/
inductive Wanted where
  | text
  | sequence
  | word
  | unit
  | record (name : String)
  deriving DecidableEq

/-- How a fault describes the kind that was wanted. -/
def Wanted.describe : Wanted → String
  | text => "a string"
  | sequence => "a sequence"
  | word => "usize"
  | unit => "unit"
  | record name => "struct " ++ name

/-- The first thing wrong with a text. -/
inductive Fault where
  | endOfValue
  | endOfObject
  | endOfList
  | endOfString
  | expectedValue
  | expectedIdent
  | expectedColon
  | expectedListEnd
  | expectedObjectEnd
  | keyNotText
  | trailingComma
  | trailingCharacters
  | invalidNumber
  | numberOutOfRange
  | invalidEscape
  | unfinishedPair
  | lonelySurrogate
  | controlCharacter
  | tooDeep
  /-- A value of the wrong kind. -/
  | wrongKind (found : Found) (wanted : Wanted)
  /-- A value of the right kind outside its range. -/
  | wrongValue (found : Found) (wanted : Wanted)
  /-- A list that ends before a field that must be present. -/
  | wrongLength (present : Nat) (record : String) (fields : Nat)
  | unknownType (name : String)
  | duplicateField (name : String)
  | missingField (name : String)
  /-- A literal that is neither an integer nor a float. -/
  | notLiteral
  deriving DecidableEq

/-- The wording of each fault. -/
def Fault.message : Fault → String
  | endOfValue => "EOF while parsing a value"
  | endOfObject => "EOF while parsing an object"
  | endOfList => "EOF while parsing a list"
  | endOfString => "EOF while parsing a string"
  | expectedValue => "expected value"
  | expectedIdent => "expected ident"
  | expectedColon => "expected `:`"
  | expectedListEnd => "expected `,` or `]`"
  | expectedObjectEnd => "expected `,` or `\x7d`"
  | keyNotText => "key must be a string"
  | trailingComma => "trailing comma"
  | trailingCharacters => "trailing characters"
  | invalidNumber => "invalid number"
  | numberOutOfRange => "number out of range"
  | invalidEscape => "invalid escape"
  | unfinishedPair => "unexpected end of hex escape"
  | lonelySurrogate => "lone leading surrogate in hex escape"
  | controlCharacter => "control character (\\u0000-\\u001F) found while parsing a string"
  | tooDeep => "recursion limit exceeded"
  | wrongKind found wanted =>
    "invalid type: " ++ found.describe ++ ", expected " ++ wanted.describe
  | wrongValue found wanted =>
    "invalid value: " ++ found.describe ++ ", expected " ++ wanted.describe
  | wrongLength present record fields =>
    "invalid length " ++ toString present ++ ", expected struct " ++ record ++ " with "
      ++ toString fields ++ " elements"
  | unknownType name =>
    "unknown variant `" ++ name ++ "`, expected one of `i32`, `i64`, `f64`, `none`, `void`"
  | duplicateField name => "duplicate field `" ++ name ++ "`"
  | missingField name => "missing field `" ++ name ++ "`"
  | notLiteral => "data did not match any variant of untagged enum Literal"

end CallFlow.Json
