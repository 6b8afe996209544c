/-
Emitting a module in the text format.

Functions are named by identifiers, in quotes where a plain one cannot hold the
name; slots are named where their names are plain identifiers and numbered
otherwise. A label is written as it is.
-/
import CallFlow.Event
import CallFlow.Validity
import CallFlow.Wat.Document

namespace CallFlow.Wat

-- ================================================================ names

/-- Whether a plain identifier may hold a character. -/
def isIdChar (c : Char) : Bool :=
  c.isAlphanum || "!#$%&'*+-./:<=>?@\\^_`|~".toList.contains c

/-- Whether a name is a plain identifier. -/
def isPlain (name : String) : Bool :=
  !name.isEmpty && name.toList.all isIdChar

/-- The identifier of a function. -/
def symbol (name : String) : Sexp :=
  if isPlain name then .word ("$" ++ name) else .quoted (Text.utf8 name)

/-- The name of a slot, or its number. -/
def slot (f : Function) (index : Nat) : Sexp :=
  match f.slotName? index with
  | some name => .word (if isPlain name then "$" ++ name else toString index)
  | none => .word (toString index)

/-- A label. -/
def label (name : String) : Sexp :=
  .word ("$" ++ name)

/-- A text as a string. -/
def string (s : String) : Sexp :=
  .string (Text.utf8 s)

/-- A natural number. -/
def number (n : Nat) : Sexp :=
  .word (toString n)

-- ================================================================= code

/-- A literal with its operator. -/
def constant : Constant → Sexp
  | .i32 v => .list [.word "i32.const", .word (toString v.toInt)]
  | .i64 v => .list [.word "i64.const", .word (toString v.toInt)]
  | .f64 v => .list [.word "f64.const", .word (Layout.wat.text v)]

mutual

/-- An expression in folded form: its operands inside its operator. -/
def folded (f : Function) : Expr → Sexp
  | .const c => constant c
  | .get i _ => .list [.word "local.get", slot f i]
  | .set i v => .list [.word "local.set", slot f i, folded f v]
  | .call g args _ => .list (.word "call" :: symbol g :: foldedAll f args)
  | .load t a => .list [.word (t.name ++ ".load"), folded f a]
  | .store t a v => .list [.word (t.name ++ ".store"), folded f a, folded f v]
  | .returnValue v => .list [.word "return", folded f v]
  | .returnNone => .list [.word "return"]
  | .block l body => .list (.word "block" :: label l :: foldedAll f body)
  | .loop l body => .list (.word "loop" :: label l :: foldedAll f body)
  | .branchIf l c .zero =>
    .list [.word "br_if", label l, .list [.word "i32.eqz", folded f c]]
  | .branchIf l c .nonzero => .list [.word "br_if", label l, folded f c]

/-- Expressions in folded form. -/
def foldedAll (f : Function) : List Expr → List Sexp
  | [] => []
  | e :: es => folded f e :: foldedAll f es

end

mutual

/-- A statement. Blocks and loops are laid out over several lines. -/
def statement (f : Function) : Expr → Document
  | .block l body => .group [.word "block", label l] (statements f body)
  | .loop l body => .group [.word "loop", label l] (statements f body)
  | e => .line (folded f e)

/-- Statements in order. -/
def statements (f : Function) : List Expr → List Document
  | [] => []
  | e :: es => statement f e :: statements f es

end

-- =============================================================== modules

/-- A result type, unless there is no result. -/
def result (t : ValueType) : List Sexp :=
  if t.isStorable then [.list [.word "result", .word t.name]] else []

/-- A function. -/
def function (f : Function) : Document :=
  let params := f.params.zipIdx.map fun (t, i) =>
    Sexp.list [.word "param", slot f i, .word t.name]
  let locals := f.locals.zipIdx.map fun (t, i) =>
    Document.line (.list [.word "local", slot f (f.params.length + i), .word t.name])
  .group (.word "func" :: symbol f.name :: params ++ result f.result)
    (locals ++ statements f f.body)

/-- An import. -/
def importLine (i : Import) : Document :=
  let params : List Sexp :=
    if i.params.isEmpty then []
    else [.list (.word "param" :: i.params.map fun t => .word t.name)]
  .line (.list [.word "import", string i.module, string i.base,
    .list (.word "func" :: symbol i.name :: params ++ result i.result)])

/-- The memory with its limits. -/
def memoryLine (m : Memory) : Document :=
  .line (.list [.word "memory", .list [.word "export", string m.exportName],
    number m.initialPages.toNat, number m.maximumPages.toNat])

/-- A segment. -/
def segmentLine (s : Segment) : Document :=
  .line (.list [.word "data", .list [.word "i32.const", number s.offset.toNat],
    .string s.bytes])

/-- An export. -/
def exportLine (e : Export) : Document :=
  .line (.list [.word "export", string e.name, .list [.word "func", symbol e.function]])

/-- A module. -/
def document (m : Module) : Document :=
  .group [.word "module"]
    (m.imports.map importLine ++ memoryLine m.memory :: m.memory.segments.map segmentLine
      ++ m.functions.map function ++ m.exports.map exportLine)

/-- The text of a module. -/
def emit (m : Module) : Traced String :=
  match m.validate with
  | .error fault => .fail (.invalidModule fault)
  | .ok () => do
    let text := (document m).text 0
    .report (.emittedText text.utf8ByteSize)
    pure text

end CallFlow.Wat
