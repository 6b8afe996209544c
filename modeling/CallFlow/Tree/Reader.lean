/-
Reading a program tree from JSON text.

One reader for each node, in terms of its columns. The tag comes first and the
location last in every node; the location may be left out or `null`, and a list
that is left out is empty.
-/
import CallFlow.Json.Reader
import CallFlow.Tree.Basic

namespace CallFlow

open Json

/-- Reads a location. -/
def Location.reader : Reader Location :=
  .record "Location"
    [⟨"line", UInt64, .natural, true⟩, ⟨"column", UInt64, .natural, true⟩,
      ⟨"offset", UInt64, .natural, false⟩]
    fun (line, column, offset, _) => do
      return { line := ← need "line" line
               column := ← need "column" column
               offset := offset.getD 0 }

/-- Reads a span. -/
def Span.reader : Reader Span :=
  .record "Span"
    [⟨"start", Location, Location.reader, true⟩, ⟨"end", Location, Location.reader, true⟩]
    fun (start, stop, _) => do
      return { start := ← need "start" start, stop := ← need "end" stop }

namespace Tree

/-- The column of a tag. -/
def tagColumn : Column :=
  ⟨"type", String, .text, true⟩

/-- The column of a location. -/
def spanColumn : Column :=
  ⟨"location", Option Span, .optional Span.reader, false⟩

/-- The column of a list that is empty when left out. -/
def listColumn {α : Type} (name : String) (r : Reader α) : Column :=
  ⟨name, List α, .list r, false⟩

/-- Reads an identifier. -/
def Identifier.reader : Reader Identifier :=
  .record "Identifier" [tagColumn, ⟨"name", String, .text, true⟩, spanColumn]
    fun (tag, name, span, _) => do
      return { tag := ← need "type" tag, name := ← need "name" name, span := span.join }

-- =============================================================== literals

/-- Reads the items of a list of any values under a given step for
values. -/
def skipItems (item : Reader Unit) : Reader Unit := do
  let _ ← Reader.listTail item

/-- Reads the members of an object of any values. -/
def skipMembers (item : Reader Unit) : (budget : Nat) → (first : Bool) → Reader Unit
  | 0, _ => .fail .endOfObject
  | budget + 1, first => do
    match ← Reader.key? first with
    | none => pure ()
    | some _ => do
      Reader.colon
      item
      skipMembers item budget false

/-- Reads a value of any kind: the number it is, if it is one. It may
nest as deep as the limit allows. -/
def anyValue : (depth : Nat) → Step (Option Number)
  | 0 => fun _ => .error .tooDeep
  | depth + 1 =>
    let inner : Reader Unit := fun _ cs => (anyValue depth cs).map fun (_, rest) => ((), rest)
    let reader : Reader (Option Number) := do
      match ← Reader.peek? with
      | none => .fail .endOfValue
      | some c =>
        if c = '-' then do Reader.advance; some <$> .ofStep (Number.read true)
        else if c.isDigit then some <$> .ofStep (Number.read false)
        else if c = '"' then do Reader.advance; let _ ← Reader.stringTail; pure none
        else if c = '[' then do
          Reader.nested do Reader.advance; skipItems inner
          pure none
        else if c = '\x7b' then do
          Reader.nested do
            Reader.advance
            fun depth cs => skipMembers inner cs.length true depth cs
            Reader.endObject
          pure none
        else do Reader.advance; Reader.ofSkip (skipScalar c); pure none
    reader (depth + 1)

/-- The literal a number stands for: an integer if it has 64 bits with
its sign, and the nearest double otherwise. -/
def Literal.ofNumber : Number → Literal
  | .natural n => if n < 0x8000000000000000 then .int (Int64.ofNat n) else .float (.ofNat n)
  | .negative n => .int (Int64.ofInt n)
  | .float x => .float x

/-- Reads a literal. -/
def Literal.reader : Reader Literal := do
  match ← anyValue with
  | some number => pure (.ofNumber number)
  | none => .fail .notLiteral

-- ============================================================== the nodes

/-- Reads an operand. -/
def Operand.reader : Reader Operand :=
  .record "Operand"
    [tagColumn, ⟨"name", Option String, .optional .text, false⟩,
      ⟨"value", Option Literal, .optional Literal.reader, false⟩, spanColumn]
    fun (tag, name, value, span, _) => do
      return { tag := ← need "type" tag, name := name.join, value := value.join
               span := span.join }

/-- Reads a call. -/
def Call.reader : Reader Call :=
  .record "CallStatement"
    [tagColumn, ⟨"variable", Identifier, Identifier.reader, true⟩,
      ⟨"fn", Identifier, Identifier.reader, true⟩, listColumn "params" Operand.reader, spanColumn]
    fun (tag, target, callee, args, span, _) => do
      return { tag := ← need "type" tag, target := ← need "variable" target
               callee := ← need "fn" callee, args := args.getD [], span := span.join }

/-- Reads a loop. -/
def Loop.reader : Reader Loop :=
  .record "ConditionalLoop"
    [tagColumn, ⟨"condition", Identifier, Identifier.reader, true⟩,
      listColumn "body" Call.reader, spanColumn]
    fun (tag, condition, calls, span, _) => do
      return { tag := ← need "type" tag, condition := ← need "condition" condition
               calls := calls.getD [], span := span.join }

/-- Reads the declaration of a variable. -/
def Variable.reader : Reader Variable :=
  .record "VariableDeclaration"
    [tagColumn, ⟨"id", Identifier, Identifier.reader, true⟩,
      ⟨"variableType", ValueType, .valueType, true⟩,
      ⟨"iniValue", Option Operand, .optional Operand.reader, false⟩, spanColumn]
    fun (tag, id, type, init, span, _) => do
      return { tag := ← need "type" tag, id := ← need "id" id
               type := ← need "variableType" type, init := init.join, span := span.join }

/-- Reads the body of a function. -/
def Body.reader : Reader Body :=
  .record "FunctionBody"
    [tagColumn, listColumn "variables" Variable.reader, listColumn "calls" Call.reader,
      ⟨"loop", Option Loop, .optional Loop.reader, false⟩, spanColumn]
    fun (tag, vars, calls, loop, span, _) => do
      return { tag := ← need "type" tag, vars := vars.getD []
               calls := calls.getD [], loop := loop.join, span := span.join }

/-- Reads a parameter. -/
def Param.reader : Reader Param :=
  .record "Param"
    [tagColumn, ⟨"id", Identifier, Identifier.reader, true⟩,
      ⟨"paramType", ValueType, .valueType, true⟩, spanColumn]
    fun (tag, id, type, span, _) => do
      return { tag := ← need "type" tag, id := ← need "id" id
               type := ← need "paramType" type, span := span.join }

/-- Reads the declaration of a function. -/
def Function.reader : Reader Function :=
  .record "FunctionDeclaration"
    [tagColumn, ⟨"id", Identifier, Identifier.reader, true⟩, listColumn "params" Param.reader,
      ⟨"returnType", ValueType, .valueType, true⟩, ⟨"body", Body, Body.reader, true⟩, spanColumn]
    fun (tag, id, params, result, body, span, _) => do
      return { tag := ← need "type" tag, id := ← need "id" id, params := params.getD []
               result := ← need "returnType" result, body := ← need "body" body
               span := span.join }

/-- Reads an import. -/
def Import.reader : Reader Import :=
  .record "FunctionImport"
    [tagColumn, ⟨"id", Identifier, Identifier.reader, true⟩, ⟨"module", String, .text, true⟩,
      ⟨"base", String, .text, true⟩, listColumn "paramTypes" .valueType,
      ⟨"returnType", ValueType, .valueType, true⟩, spanColumn]
    fun (tag, id, module, base, params, result, span, _) => do
      return { tag := ← need "type" tag, id := ← need "id" id
               module := ← need "module" module, base := ← need "base" base
               params := params.getD [], result := ← need "returnType" result
               span := span.join }

/-- Reads an export. -/
def Export.reader : Reader Export :=
  .record "FunctionExport"
    [tagColumn, ⟨"id", Identifier, Identifier.reader, true⟩, ⟨"name", String, .text, true⟩,
      spanColumn]
    fun (tag, id, name, span, _) => do
      return { tag := ← need "type" tag, id := ← need "id" id, name := ← need "name" name
               span := span.join }

/-- Reads a program. -/
def Program.reader : Reader Program :=
  .record "Root"
    [tagColumn, listColumn "fnImports" Import.reader, listColumn "functions" Function.reader,
      listColumn "fnExports" Export.reader, spanColumn]
    fun (tag, imports, functions, exports, span, _) => do
      return { tag := ← need "type" tag, imports := imports.getD []
               functions := functions.getD [], exports := exports.getD [], span := span.join }

/-- The program that a JSON text holds. -/
def Program.ofJson (text : String) : Except Fault Program :=
  Program.reader.run text

end Tree

end CallFlow
