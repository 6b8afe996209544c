/-
Reading a TOML document.
-/
import CallFlow.Toml.Scalar
import CallFlow.Toml.Scan
import CallFlow.Toml.Table

namespace CallFlow.Toml

/-- A key with its value. -/
abbrev Assignment : Type :=
  (List String × String) × Value

-- ================================================================= values

/-- A value that is a bare word. A date may have a time after a space. -/
def bareValue : Scan Value := do
  let cs ← Scan.takeWhile isWordChar
  if isDate cs then
    fun rest =>
      let time := (rest.drop 1).takeWhile isWordChar
      if rest.head? = some ' ' ∧ isZonedTime time then
        some (.moment (String.ofList (cs ++ ' ' :: time)), rest.drop (1 + time.length))
      else some (.moment (String.ofList cs), rest)
  else
    match word cs with
    | some v => return v
    | none => Scan.refuse

/-- A value that holds no other values. -/
def plainValue : Scan Value := do
  match ← Scan.peek? with
  | some '"' => return .string (← quotedString '"')
  | some '\'' => return .string (← quotedString '\'')
  | _ => bareValue

/-- The items of a list up to its end. A comma may follow the last one. -/
def listItems (item : Scan Value) : (budget : Nat) → Scan (List Value)
  | 0 => Scan.refuse
  | budget + 1 => do
    layout
    if ← Scan.accept [']'] then return []
    let v ← item
    layout
    if ← Scan.accept [','] then return v :: (← listItems item budget)
    Scan.expect [']']
    return [v]

/-- A key, an equals sign and a value. -/
def assignment (item : Scan Value) : Scan Assignment := do
  let k ← key
  Scan.expect ['=']
  blanks
  return (k, ← item)

/-- The members of a table on one line up to its end. No comma follows
the last one. -/
def inlineMembers (item : Scan Value) : (budget : Nat) → Scan (List Assignment)
  | 0 => Scan.refuse
  | budget + 1 => do
    let a ← assignment item
    blanks
    if ← Scan.accept [','] then return a :: (← inlineMembers item budget)
    Scan.expect ['\x7d']
    return [a]

/-- A table on one line, after its opening brace. -/
def inlineTable (item : Scan Value) : Scan Value := do
  blanks
  let assignments ← if ← Scan.accept ['\x7d'] then pure []
    else do inlineMembers item (← Scan.remaining)
  match Members.assignAll [] assignments with
  | some members => return .table (Node.finishMembers members)
  | none => Scan.refuse

/-- A value with at most so many values around each other. -/
def value : (depth : Nat) → Scan Value
  | 0 => plainValue
  | depth + 1 => do
    if ← Scan.accept ['['] then
      return .list (← listItems (value depth) (← Scan.remaining))
    if ← Scan.accept ['\x7b'] then inlineTable (value depth)
    else plainValue

-- ============================================================== documents

/-- A value in a document. -/
def documentValue : Scan Value :=
  value (maxLevels - 1)

/-- The assignments up to the next header or the end of the text. -/
def assignments : (budget : Nat) → Scan (List Assignment)
  | 0 => pure []
  | budget + 1 => do
    layout
    match ← Scan.peek? with
    | none => return []
    | some '[' => return []
    | _ => do
      let a ← assignment documentValue
      restOfLine
      return a :: (← assignments budget)

/-- The header of a table, and what is to be done with the assignments
below it. -/
def header : Scan (List Assignment → Members → Option Members) := do
  if ← Scan.accept ['[', '['] then
    let (path, name) ← key
    Scan.expect [']', ']']
    restOfLine
    return fun values => Members.change (Members.append name values) path
  else
    Scan.expect ['[']
    let (path, name) ← key
    Scan.expect [']']
    restOfLine
    return fun values => Members.change (Members.declare name values) path

/-- Tables with headers up to the end of the text, added to those
before. -/
def sections (ms : Members) : (budget : Nat) → Scan Members
  | 0 => Scan.refuse
  | budget + 1 => do
    if (← Scan.peek?).isNone then return ms
    let apply ← header
    let values ← assignments (← Scan.remaining)
    match apply values ms with
    | some ms => sections ms budget
    | none => Scan.refuse

/-- A whole document. -/
def document : Scan Members := do
  let _ ← Scan.accept ['\ufeff']
  let values ← assignments (← Scan.remaining)
  match Members.assignAll [] values with
  | some ms => do sections ms ((← Scan.remaining) + 1)
  | none => Scan.refuse

/-- The members of the outermost table of a document. -/
def read (text : String) : Option (List (String × Value)) :=
  (document.run text.toList).map fun (members, _) => Node.finishMembers members

end CallFlow.Toml
