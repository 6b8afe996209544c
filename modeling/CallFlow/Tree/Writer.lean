/-
Writing a program tree as JSON.

The members of a node stand in a fixed order, the tag first and the location
last. What is optional and absent is left out; a list is written even if empty.
-/
import CallFlow.Json.Writer
import CallFlow.Number.Layout
import CallFlow.Tree.Basic

namespace CallFlow

open Json

/-- A member that is written. -/
def Json.member (key : String) (d : Document) : List (String × Document) :=
  [(key, d)]

/-- A member that is left out when absent. -/
def Json.member? {α : Type} (key : String) (write : α → Document) :
    Option α → List (String × Document)
  | none => []
  | some a => [(key, write a)]

/-- The document of a word. -/
def Json.Document.word (n : UInt64) : Document :=
  .number (toString n.toNat)

/-- The document of a location. -/
def Location.document (l : Location) : Document :=
  .object [("line", .word l.line), ("column", .word l.column), ("offset", .word l.offset)]

/-- The document of a span. -/
def Span.document (s : Span) : Document :=
  .object [("start", s.start.document), ("end", s.stop.document)]

/-- The document of a value type. -/
def ValueType.document (t : ValueType) : Document :=
  .text t.name

namespace Tree

/-- The member of a location. -/
def spanMember (span : Option Span) : List (String × Document) :=
  member? "location" Span.document span

/-- The document of an identifier. -/
def Identifier.document (id : Identifier) : Document :=
  .object ([("type", .text id.tag), ("name", .text id.name)] ++ spanMember id.span)

/-- The document of a literal. -/
def Literal.document : Literal → Document
  | .int n => .number (toString n.toInt)
  | .float x => .number (Layout.tree.text x)

/-- The document of an operand. -/
def Operand.document (o : Operand) : Document :=
  .object (member "type" (.text o.tag) ++ member? "name" .text o.name
    ++ member? "value" Literal.document o.value ++ spanMember o.span)

/-- The document of a call. -/
def Call.document (c : Call) : Document :=
  .object ([("type", .text c.tag), ("variable", c.target.document), ("fn", c.callee.document),
    ("params", .list (c.args.map Operand.document))] ++ spanMember c.span)

/-- The document of a loop. -/
def Loop.document (l : Loop) : Document :=
  .object ([("type", .text l.tag), ("condition", l.condition.document),
    ("body", .list (l.calls.map Call.document))] ++ spanMember l.span)

/-- The document of the declaration of a variable. -/
def Variable.document (v : Variable) : Document :=
  .object ([("type", .text v.tag), ("id", v.id.document), ("variableType", v.type.document)]
    ++ member? "iniValue" Operand.document v.init ++ spanMember v.span)

/-- The document of the body of a function. -/
def Body.document (b : Body) : Document :=
  .object ([("type", .text b.tag), ("variables", .list (b.vars.map Variable.document)),
    ("calls", .list (b.calls.map Call.document))]
    ++ member? "loop" Loop.document b.loop ++ spanMember b.span)

/-- The document of a parameter. -/
def Param.document (p : Param) : Document :=
  .object ([("type", .text p.tag), ("id", p.id.document), ("paramType", p.type.document)]
    ++ spanMember p.span)

/-- The document of the declaration of a function. -/
def Function.document (f : Function) : Document :=
  .object ([("type", .text f.tag), ("id", f.id.document),
    ("params", .list (f.params.map Param.document)), ("returnType", f.result.document),
    ("body", f.body.document)] ++ spanMember f.span)

/-- The document of an import. -/
def Import.document (i : Import) : Document :=
  .object ([("type", .text i.tag), ("id", i.id.document), ("module", .text i.module),
    ("base", .text i.base), ("paramTypes", .list (i.params.map ValueType.document)),
    ("returnType", i.result.document)] ++ spanMember i.span)

/-- The document of an export. -/
def Export.document (e : Export) : Document :=
  .object ([("type", .text e.tag), ("id", e.id.document), ("name", .text e.name)]
    ++ spanMember e.span)

/-- The document of a program. -/
def Program.document (p : Program) : Document :=
  .object ([("type", .text p.tag), ("fnImports", .list (p.imports.map Import.document)),
    ("functions", .list (p.functions.map Function.document)),
    ("fnExports", .list (p.exports.map Export.document))] ++ spanMember p.span)

/-- The JSON text of a program, one item a line. -/
def Program.toJson (p : Program) : String :=
  String.ofList (p.document.pretty 0)

end Tree

end CallFlow
