/-
Operands: from the node that a program writes to the value that an operation
reads.
-/
import CallFlow.Operation
import CallFlow.Tree.Basic

namespace CallFlow

namespace Tree

/-- An operand whose tag and parts agree. -/
inductive OperandKind where
  | reference (name : String)
  | integer (type : ValueType) (value : Int64)
  | float (value : Binary64)
  | void
  deriving DecidableEq

/-- The fault of an operand that is not what its tag asks for. -/
def Operand.malformed {α : Type} (o : Operand) (expected : String) : Except Error α :=
  .error (.malformedNode expected o.tag o.span)

/-- An integer operand of a type. -/
def Operand.integerOf (o : Operand) (type : ValueType) : Except Error OperandKind :=
  match o.value with
  | some (.int value) => .ok (.integer type value)
  | _ => o.malformed "integer literal"

/-- What an operand is, by its tag. A float may be written as an
integer. -/
def Operand.kind (o : Operand) : Except Error OperandKind :=
  match o.tag with
  | "Identifier" =>
    match o.name with
    | some name => .ok (.reference name)
    | none => o.malformed "Identifier with a name"
  | "i32" => o.integerOf .i32
  | "i64" => o.integerOf .i64
  | "f64" =>
    match o.value with
    | some (.float value) => .ok (.float value)
    | some (.int value) => .ok (.float (.ofInt value.toInt))
    | none => o.malformed "float literal"
  | "Void" => .ok .void
  | _ => o.malformed "Identifier, i32, i64, f64 or Void"

end Tree

/-- The 32-bit integer with the value of a 64-bit one, if there is one. -/
def narrow? (value : Int64) : Option Int32 :=
  if -0x80000000 ≤ value.toInt ∧ value.toInt < 0x80000000 then some (Int32.ofInt value.toInt) else none

/-- The value of an operand; a `Void` operand has none. -/
def lowerOperand (o : Tree.Operand) (symbols : SymbolTable) : Except Error (Option Value) := do
  match ← o.kind with
  | .reference name => return some (.slot (← symbols.resolve name o.span))
  | .integer .i32 value =>
    match narrow? value with
    | some v => return some (.const (.i32 v))
    | none => .error (.typeMismatch (.literal value) .i32 .i64 o.span)
  | .integer _ value => return some (.const (.i64 value))
  | .float value => return some (.const (.f64 value))
  | .void => return none

/-- The initial value of a variable, which must have its type. -/
def lowerInitializer (name : String) (slot : Slot) (o : Tree.Operand) (symbols : SymbolTable) :
    Except Error Value := do
  match ← lowerOperand o symbols with
  | none => .error (.typeMismatch (.initializer name) slot.type .void o.span)
  | some value =>
    if value.type = slot.type then return value
    else .error (.typeMismatch (.initializer name) slot.type value.type o.span)

end CallFlow
