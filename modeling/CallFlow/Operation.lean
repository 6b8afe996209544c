/-
Operations: the steps of a function body before its control flow is built.
-/
import CallFlow.Code

namespace CallFlow

/-- What an operation reads: a slot or a literal. -/
inductive Value where
  | slot (s : Slot)
  | const (c : Constant)
  deriving DecidableEq

namespace Value

/-- The type of a value. -/
def type : Value → ValueType
  | slot s => s.type
  | const c => c.type

/-- The expression that gives the value. -/
def toExpr : Value → Expr
  | slot s => .ofSlot s
  | const c => .const c

/-- How a value is written in a listing. -/
def text : Value → String
  | slot s => s.text
  | const c => c.text

end Value

/-- One step of a function body. -/
inductive Operation where
  /-- Gives a variable its initial value. -/
  | init (slot : Slot) (value : Value)
  /-- Calls a function and assigns its result. -/
  | call (target : Slot) (function : String) (args : List Value) (result : ValueType)
  /-- Returns the value of a slot. -/
  | ret (slot : Slot)
  deriving DecidableEq

namespace Operation

/-- Whether the operation gives an initial value. -/
def isInit : Operation → Bool
  | init .. => true
  | _ => false

/-- Whether the operation is a call. -/
def isCall : Operation → Bool
  | call .. => true
  | _ => false

/-- Whether the operation returns. -/
def isRet : Operation → Bool
  | ret _ => true
  | _ => false

/-- The slot that a call assigns to. -/
def callTarget? : Operation → Option Slot
  | call target .. => some target
  | _ => none

/-- The structured form of an operation. -/
def toExpr : Operation → Expr
  | init slot value => .set slot.index value.toExpr
  | call target f args result => .set target.index (.call f (args.map Value.toExpr) result)
  | ret slot => .returnValue (.ofSlot slot)

/-- How an operation is written in a listing. -/
def text : Operation → String
  | init slot value => "init " ++ slot.text ++ " = " ++ value.text
  | call target f args _ =>
    "call " ++ target.text ++ " = " ++ f ++ "(" ++ ", ".intercalate (args.map Value.text) ++ ")"
  | ret slot => "return " ++ slot.text

end Operation

end CallFlow
