/-
Writing strings of a TOML document, in the plainest of four forms.
-/
import CallFlow.Toml.Scan

namespace CallFlow.Toml

/-- The length of the longest run of a character. -/
def longestRun (c : Char) (cs : List Char) : Nat :=
  (cs.foldl (fun (longest, current) d =>
    let current := if d = c then current + 1 else 0
    (max longest current, current)) (0, 0)).1

/-- A control character that only an escape can write. -/
def needsEscape (c : Char) : Bool :=
  !isText c && c != '\n'

/-- A form of a string. -/
inductive StringForm where
  /-- Between single double quotes. -/
  | basic
  /-- Between single quotes, without escapes. -/
  | literal
  /-- Between triple double quotes. -/
  | basicBlock
  /-- Between triple single quotes, without escapes. -/
  | literalBlock
  deriving DecidableEq

/-- The form that shows a string best: without escapes if that can be,
on one line if it has one line, and in double quotes rather than single
ones. -/
def StringForm.of (cs : List Char) : StringForm :=
  let escapes := cs.any needsEscape
  let backslash := cs.contains '\\'
  let newline := cs.contains '\n'
  let doubles := longestRun '"' cs
  let singles := longestRun '\'' cs
  if !escapes && !backslash && doubles = 0 && !newline then .basic
  else if !escapes && singles = 0 && !newline then .literal
  else if !escapes && !backslash && doubles ≤ 2 then .basicBlock
  else if !escapes && singles ≤ 2 then .literalBlock
  else if newline then .basicBlock
  else .basic

/-- Four hexadecimal digits. -/
def hexDigits4 (n : Nat) : List Char :=
  [n / 4096 % 16, n / 256 % 16, n / 16 % 16, n % 16].map fun d => (Nat.digitChar d).toUpper

/-- How a character other than a quote is written where there are
escapes. -/
def escaped (block : Bool) (c : Char) : List Char :=
  match c with
  | '\x08' => ['\\', 'b']
  | '\t' => ['\\', 't']
  | '\n' => if block then ['\n'] else ['\\', 'n']
  | '\x0c' => ['\\', 'f']
  | '\r' => ['\\', 'r']
  | '\\' => ['\\', '\\']
  | c => if needsEscape c then '\\' :: 'u' :: hexDigits4 c.toNat else [c]

/-- The characters of a string with escapes. Up to `free` double quotes
in a row stand as they are. -/
def escapedText (block : Bool) (free : Nat) : (quotes : Nat) → List Char → List Char
  | _, [] => []
  | quotes, c :: cs =>
    if c = '"' then
      if quotes < free then c :: escapedText block free (quotes + 1) cs
      else '\\' :: c :: escapedText block free 0 cs
    else
      escaped block c ++ escapedText block free 0 cs

/-- How a string is written. A block with several lines starts on a new
one. -/
def quoted (s : String) : String :=
  let cs := s.toList
  let start := if cs.contains '\n' then ['\n'] else []
  let double := List.replicate 3 '"'
  let single := List.replicate 3 '\''
  String.ofList <|
    match StringForm.of cs with
    | .basic => '"' :: escapedText false 0 0 cs ++ ['"']
    | .literal => '\'' :: cs ++ ['\'']
    | .basicBlock => double ++ start ++ escapedText true 2 0 cs ++ double
    | .literalBlock => single ++ start ++ cs ++ single

end CallFlow.Toml
