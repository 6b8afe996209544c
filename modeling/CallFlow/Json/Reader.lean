/-
Readers: values of a tree, decoded while the text is parsed.

A reader is a step that knows how many more levels of nesting it may open. It
reports the first fault in reading order, so a value of the wrong kind early in
the text wins over broken text later on.

A record is written as an object, whose members may come in any order among
others that are passed over, or as a list of its fields in order. Its columns say
what the fields are called, how each is read and whether it must be there; a row
holds what was found for each.
-/
import CallFlow.Json.Scan
import CallFlow.ValueType

namespace CallFlow.Json

/-- A step under a limit on nesting. -/
def Reader (α : Type) : Type :=
  Nat → Step α

namespace Reader

instance : Monad Reader where
  pure a := fun _ cs => .ok (a, cs)
  bind r f := fun depth cs =>
    match r depth cs with
    | .error e => .error e
    | .ok (a, rest) => f a depth rest

/-- Gives up with a fault. -/
def fail {α : Type} (e : Fault) : Reader α :=
  fun _ _ => .error e

/-- The next character that is not blank, still unread. -/
def peek? : Reader (Option Char) :=
  fun _ cs => .ok ((skipBlank cs).head?, skipBlank cs)

/-- Passes over one character. -/
def advance : Reader Unit :=
  fun _ cs => .ok ((), cs.tail)

/-- A reader that ignores the limit on nesting. -/
def ofStep {α : Type} (s : Step α) : Reader α :=
  fun _ => s

/-- A reader that has its result already. -/
def ofExcept {α : Type} (result : Except Fault α) : Reader α :=
  fun _ cs => result.map fun a => (a, cs)

/-- A reader that only passes over text. -/
def ofSkip (s : List Char → Except Fault (List Char)) : Reader Unit :=
  fun _ cs => (s cs).map fun rest => ((), rest)

/-- Opens one more level of nesting. The last level may not be opened. -/
def nested {α : Type} (r : Reader α) : Reader α
  | depth + 2, cs => r (depth + 1) cs
  | _, _ => .error .tooDeep

/-- The limit on nesting. -/
def maxDepth : Nat := 128

/-- Reads a whole text, after which only blanks may follow. -/
def run {α : Type} (r : Reader α) (text : String) : Except Fault α :=
  match r maxDepth text.toList with
  | .error e => .error e
  | .ok (a, rest) => if (skipBlank rest).isEmpty then .ok a else .error .trailingCharacters

-- =================================================== single values

/-- Reads the rest of a string after its opening quote. -/
def stringTail : Reader String :=
  ofStep fun cs => (stringRest .plain cs).map fun (s, rest) => (String.ofList s, rest)

/-- Reads a value of any kind but a list or an object, and reports it as
being of the wrong kind. A list or object is reported without being
read. -/
def wrongKind {α : Type} (wanted : Wanted) : Reader α := do
  let found : Found ←
    match ← peek? with
    | none => fail .expectedValue
    | some c =>
      if c = 'n' then do advance; ofSkip (word ['u', 'l', 'l']); pure .null
      else if c = 't' then do advance; ofSkip (word ['r', 'u', 'e']); pure (.boolean true)
      else if c = 'f' then do advance; ofSkip (word ['a', 'l', 's', 'e']); pure (.boolean false)
      else if c = '-' then do advance; pure (← ofStep (Number.read true)).found
      else if c.isDigit then do pure (← ofStep (Number.read false)).found
      else if c = '"' then do advance; pure (.text (← stringTail))
      else if c = '[' then pure .sequence
      else if c = '\x7b' then pure .map
      else fail .expectedValue
  fail (.wrongKind found wanted)

/-- Reads a string. -/
def text : Reader String := do
  match ← peek? with
  | none => fail .endOfValue
  | some '"' => do advance; stringTail
  | some _ => wrongKind .text

/-- The word a number stands for, if it is a natural number that fits. -/
def wordOf : Number → Except Fault UInt64
  | .natural n => .ok (UInt64.ofNat n)
  | .negative n => .error (.wrongValue (.integer n) .word)
  | .float x => .error (.wrongKind (.float x) .word)

/-- Reads a natural number of at most 64 bits. -/
def natural : Reader UInt64 := do
  let number ←
    match ← peek? with
    | none => fail .endOfValue
    | some c =>
      if c = '-' then do advance; ofStep (Number.read true)
      else if c.isDigit then ofStep (Number.read false)
      else wrongKind .word
  ofExcept (wordOf number)

/-- Reads a value or `null`. -/
def optional {α : Type} (r : Reader α) : Reader (Option α) := do
  match ← peek? with
  | some 'n' => do advance; ofSkip (word ['u', 'l', 'l']); pure none
  | _ => some <$> r

/-- Reads `null`. -/
def unit : Reader Unit := do
  match ← peek? with
  | none => fail .endOfValue
  | some 'n' => do advance; ofSkip (word ['u', 'l', 'l'])
  | some _ => wrongKind .unit

/-- Reads the colon between a key and its value. -/
def colon : Reader Unit := do
  match ← peek? with
  | none => fail .endOfObject
  | some ':' => advance
  | some _ => fail .expectedColon

-- ============================================================== lists

/-- Whether another item follows in a list, which is then in front of
the reader. `first` says that none has been read yet. -/
def hasItem (first : Bool) : Reader Bool := do
  match ← peek? with
  | none => fail .endOfList
  | some c =>
    if c = ']' then pure false
    else if first then pure true
    else if c = ',' then do
      advance
      match ← peek? with
      | none => fail .endOfValue
      | some ']' => fail .trailingComma
      | some _ => pure true
    else fail .expectedListEnd

/-- Reads the items of a list up to its end. Every item takes at least
one character, so `budget` rounds are enough for a text of that length. -/
def items {α : Type} (r : Reader α) : (budget : Nat) → (first : Bool) → Reader (List α)
  | 0, _ => fail .endOfList
  | budget + 1, first => do
    if ← hasItem first then
      let a ← r
      let as ← items r budget false
      pure (a :: as)
    else pure []

/-- Reads the end of a list. -/
def endList : Reader Unit := do
  match ← peek? with
  | none => fail .endOfList
  | some ']' => advance
  | some ',' => do
    advance
    match ← peek? with
    | some ']' => fail .trailingComma
    | _ => fail .trailingCharacters
  | some _ => fail .trailingCharacters

/-- Reads a list after its opening bracket. -/
def listTail {α : Type} (r : Reader α) : Reader (List α) := do
  let as ← fun depth cs => items r cs.length true depth cs
  endList
  pure as

/-- Reads a list. -/
def list {α : Type} (r : Reader α) : Reader (List α) := do
  match ← peek? with
  | none => fail .endOfValue
  | some '[' => nested do advance; listTail r
  | some _ => wrongKind .sequence

-- ============================================================ objects

/-- The next key of an object, if another member follows. `first` says
that none has been read yet. -/
def key? (first : Bool) : Reader (Option String) := do
  match ← peek? with
  | none => fail .endOfObject
  | some c =>
    if c = '\x7d' then pure none
    else if first then
      if c = '"' then do advance; some <$> stringTail else fail .keyNotText
    else if c = ',' then do
      advance
      match ← peek? with
      | none => fail .endOfValue
      | some '"' => do advance; some <$> stringTail
      | some '\x7d' => fail .trailingComma
      | some _ => fail .keyNotText
    else fail .expectedObjectEnd

/-- Reads the end of an object. -/
def endObject : Reader Unit := do
  match ← peek? with
  | none => fail .endOfObject
  | some '\x7d' => advance
  | some ',' => fail .trailingComma
  | some _ => fail .trailingCharacters

-- ======================================================== value types

/-- The value type of a name; `none` is another name of `void`. -/
def typeNamed (name : String) : Reader ValueType :=
  match ValueType.ofName? (if name = "none" then "void" else name) with
  | some t => pure t
  | none => fail (.unknownType name)

/-- Reads a type written as an object with the name as its one key and
`null` as its value, after the opening brace. -/
def typeMember : Reader ValueType := do
  match ← key? true with
  | none => fail .expectedValue
  | some name => do
    let t ← typeNamed name
    colon
    unit
    pure t

/-- Reads a value type. -/
def valueType : Reader ValueType := do
  match ← peek? with
  | none => fail .endOfValue
  | some '"' => do advance; typeNamed (← stringTail)
  | some '\x7b' => do
    let t ← nested do advance; typeMember
    match ← peek? with
    | none => fail .endOfObject
    | some '\x7d' => do advance; pure t
    | some _ => fail .expectedValue
  | some _ => fail .expectedValue

end Reader

-- ============================================================ records

/-- A field of a record. -/
structure Column where
  name : String
  type : Type
  read : Reader type
  /-- Whether a list that ends before the field is at fault. -/
  required : Bool

/-- What was found for each column. -/
def Row : List Column → Type
  | [] => Unit
  | c :: cs => Option c.type × Row cs

/-- The row in which nothing has been found. -/
def Row.empty : (columns : List Column) → Row columns
  | [] => ()
  | _ :: cs => (none, Row.empty cs)

/-- The value of a cell that must be there. -/
def need {α : Type} (name : String) : Option α → Except Fault α
  | some a => .ok a
  | none => .error (.missingField name)

namespace Reader

/-- Reads the value of a member into its cell. A second value for one
cell is reported before it is read, and a member without a column is
passed over. -/
def member (key : String) : (columns : List Column) → Row columns → Reader (Row columns)
  | [], row => do
    colon
    ofSkip skipValue
    pure row
  | c :: cs, (cell, row) => do
    if key = c.name then
      match cell with
      | some _ => fail (.duplicateField key)
      | none => do
        colon
        let value ← c.read
        pure (some value, row)
    else do
      let row ← member key cs row
      pure (cell, row)

/-- Reads the members of an object up to its end. Every member takes at
least one character, so `budget` rounds are enough for a text of that
length. -/
def members (columns : List Column) :
    (budget : Nat) → (first : Bool) → Row columns → Reader (Row columns)
  | 0, _, _ => fail .endOfObject
  | budget + 1, first, row => do
    match ← key? first with
    | none => pure row
    | some key => do
      let row ← member key columns row
      members columns budget false row

/-- Reads the columns of a record from the items of a list. Columns that
need not be there may be left off at the end. -/
def cells (name : String) (width : Nat) :
    (columns : List Column) → (index : Nat) → Reader (Row columns)
  | [], _ => pure ()
  | c :: cs, index => do
    if ← hasItem (index == 0) then
      let value ← c.read
      let row ← cells name width cs (index + 1)
      pure (some value, row)
    else if c.required then fail (.wrongLength index name width)
    else do
      let row ← cells name width cs (index + 1)
      pure (none, row)

/-- Reads a record in either form, and builds a value from its row. -/
def record {α : Type} (name : String) (columns : List Column)
    (build : Row columns → Except Fault α) : Reader α := do
  match ← peek? with
  | none => fail .endOfValue
  | some '[' => nested do
    advance
    let row ← cells name columns.length columns 0
    endList
    ofExcept (build row)
  | some '\x7b' => nested do
    advance
    let row ← fun depth cs => members columns cs.length true (Row.empty columns) depth cs
    let value ← ofExcept (build row)
    endObject
    pure value
  | some _ => wrongKind (.record name)

end Reader

end CallFlow.Json
