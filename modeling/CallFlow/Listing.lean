/-
Listings: the readable text of structured code and of modules.

A statement stands on a line of its own, indented by its depth. A block or loop
takes several lines, also where it stands as an operand; there it starts at no
indentation.
-/
import CallFlow.Module
import CallFlow.Text.Quoted

namespace CallFlow

/-- The indentation of a depth. -/
def indent (depth : Nat) : String :=
  String.ofList (List.replicate (2 * depth) ' ')

namespace Expr

/-- How a test is written. -/
def testText : BranchTest → String
  | .zero => "=="
  | .nonzero => "!="

/-- Text as an operand, or as a line at a depth. -/
def place (depth : Option Nat) (text : String) : String :=
  match depth with
  | none => text
  | some d => indent d ++ text ++ "\n"

mutual

/-- The text of an expression, as an operand or as lines at a depth. -/
def textAt (depth : Option Nat) : Expr → String
  | const c => place depth c.text
  | get i _ => place depth ("$" ++ toString i)
  | set i v => place depth ("$" ++ toString i ++ " = " ++ textAt none v)
  | call f args _ => place depth ("call " ++ f ++ "(" ++ ", ".intercalate (operands args) ++ ")")
  | load t a => place depth (t.name ++ ".load [" ++ textAt none a ++ "]")
  | store t a v =>
    place depth (t.name ++ ".store [" ++ textAt none a ++ "] " ++ textAt none v)
  | returnValue v => place depth ("return " ++ textAt none v)
  | returnNone => place depth "return"
  | block l body =>
    let d := depth.getD 0
    indent d ++ "block " ++ l ++ "\n" ++ linesAt (d + 1) body ++ indent d ++ "end\n"
  | loop l body =>
    let d := depth.getD 0
    indent d ++ "loop " ++ l ++ "\n" ++ linesAt (d + 1) body ++ indent d ++ "end\n"
  | branchIf l c test =>
    place depth ("br_if " ++ l ++ " (" ++ textAt none c ++ " " ++ testText test ++ " 0)")

/-- The texts of expressions as operands. -/
def operands : List Expr → List String
  | [] => []
  | e :: es => textAt none e :: operands es

/-- The lines of expressions at a depth. -/
def linesAt (depth : Nat) : List Expr → String
  | [] => ""
  | e :: es => textAt (some depth) e ++ linesAt depth es

end

/-- The text of an expression by itself. -/
def text (e : Expr) : String :=
  textAt none e

end Expr

namespace Function

/-- How the parameters are written. -/
def paramsText (f : Function) : String :=
  ", ".intercalate (f.params.zipIdx.map fun (t, i) => "$" ++ toString i ++ ": " ++ t.name)

/-- How the locals are written, with a question mark for a name that is
missing. -/
def localsText (f : Function) : String :=
  ", ".intercalate (f.locals.zipIdx.map fun (t, i) =>
    let index := f.params.length + i
    "$" ++ toString index ++ ": " ++ t.name ++ " (" ++ (f.slotName? index).getD "?" ++ ")")

/-- The listing of a function. -/
def text (f : Function) : String :=
  "fn " ++ f.name ++ "(" ++ f.paramsText ++ ") -> " ++ f.result.name ++ " \x7b\n"
    ++ (if f.locals.isEmpty then "" else "  local " ++ f.localsText ++ "\n")
    ++ Expr.linesAt 1 f.body ++ "\x7d\n"

end Function

/-- How an import is written. -/
def Import.text (i : Import) : String :=
  "import " ++ i.name ++ " = " ++ i.module ++ "." ++ i.base ++ "("
    ++ ValueType.commaList i.params ++ ") -> " ++ i.result.name ++ "\n"

/-- How a segment is written. -/
def Segment.text (s : Segment) : String :=
  "data @" ++ toString s.offset.toNat ++ " " ++ Text.quoted (Text.ofUtf8Lossy s.bytes) ++ "\n"

/-- How a memory is written. -/
def Memory.text (m : Memory) : String :=
  "memory " ++ toString m.initialPages.toNat ++ ".." ++ toString m.maximumPages.toNat
    ++ " export \"" ++ m.exportName ++ "\"\n" ++ String.join (m.segments.map Segment.text)

/-- How an export is written. -/
def Export.text (e : Export) : String :=
  "export " ++ e.function ++ " as \"" ++ e.name ++ "\"\n"

/-- The listing of a module. -/
def Module.text (m : Module) : String :=
  String.join (m.imports.map Import.text) ++ m.memory.text
    ++ String.join (m.functions.map fun f => "\n" ++ f.text)
    ++ (if m.exports.isEmpty then "" else "\n")
    ++ String.join (m.exports.map Export.text)

end CallFlow
