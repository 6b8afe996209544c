/-
The program tree.

A program imports functions from its host, declares functions and exports some
of them. A function declares variables and then calls functions, each call
assigning to a variable; the calls may repeat under the control of a loop. Every
node keeps the tag it was written with, because a wrong tag is an error only
where lowering asks for the right one.
-/
import CallFlow.Number.Binary64
import CallFlow.Span
import CallFlow.ValueType

namespace CallFlow

/-- The kinds of tagged nodes. -/
inductive NodeKind where
  | root
  | identifier
  | functionImport
  | functionExport
  | functionDeclaration
  | param
  | functionBody
  | variableDeclaration
  | callStatement
  | conditionalLoop
  deriving DecidableEq

/-- The tag that a node of each kind carries. -/
def NodeKind.tag : NodeKind → String
  | root => "Root"
  | identifier => "Identifier"
  | functionImport => "FunctionImport"
  | functionExport => "FunctionExport"
  | functionDeclaration => "FunctionDeclaration"
  | param => "Param"
  | functionBody => "FunctionBody"
  | variableDeclaration => "VariableDeclaration"
  | callStatement => "CallStatement"
  | conditionalLoop => "ConditionalLoop"

namespace Tree

/-- The name of the variable that makes the calls of a function repeat
while it is not zero, in a body without a loop node. -/
def sentinelName : String := "_breqz"

-- ============================================================== the nodes

/-- A name, where it is declared or used. -/
structure Identifier where
  tag : String := NodeKind.identifier.tag
  name : String
  span : Option Span := none
  deriving DecidableEq

/-- A number written in a program. -/
inductive Literal where
  | int (value : Int64)
  | float (value : Binary64)
  deriving DecidableEq

/-- An argument of a call or an initial value. The tag alone says which
of its parts matter. -/
structure Operand where
  tag : String
  name : Option String := none
  value : Option Literal := none
  span : Option Span := none
  deriving DecidableEq

/-- An assignment of the result of a call to a variable. -/
structure Call where
  tag : String := NodeKind.callStatement.tag
  target : Identifier
  callee : Identifier
  args : List Operand := []
  span : Option Span := none
  deriving DecidableEq

/-- Calls that repeat while a variable is not zero, tested before each
round. -/
structure Loop where
  tag : String := NodeKind.conditionalLoop.tag
  condition : Identifier
  calls : List Call := []
  span : Option Span := none
  deriving DecidableEq

/-- The declaration of a variable, with an initial value or without. -/
structure Variable where
  tag : String := NodeKind.variableDeclaration.tag
  id : Identifier
  type : ValueType
  init : Option Operand := none
  span : Option Span := none
  deriving DecidableEq

/-- The body of a function: variables, then calls or a loop of calls. -/
structure Body where
  tag : String := NodeKind.functionBody.tag
  vars : List Variable := []
  calls : List Call := []
  loop : Option Loop := none
  span : Option Span := none
  deriving DecidableEq

/-- A parameter of a function. -/
structure Param where
  tag : String := NodeKind.param.tag
  id : Identifier
  type : ValueType
  span : Option Span := none
  deriving DecidableEq

/-- The declaration of a function. -/
structure Function where
  tag : String := NodeKind.functionDeclaration.tag
  id : Identifier
  params : List Param := []
  result : ValueType
  body : Body
  span : Option Span := none
  deriving DecidableEq

/-- The name of a declared function. -/
def Function.name (f : Function) : String := f.id.name

/-- A function of the host, found there as `base` of `module`. -/
structure Import where
  tag : String := NodeKind.functionImport.tag
  id : Identifier
  module : String
  base : String
  params : List ValueType := []
  result : ValueType
  span : Option Span := none
  deriving DecidableEq

/-- The external name of a function. -/
structure Export where
  tag : String := NodeKind.functionExport.tag
  id : Identifier
  name : String
  span : Option Span := none
  deriving DecidableEq

/-- A whole program. -/
structure Program where
  tag : String := NodeKind.root.tag
  imports : List Import := []
  functions : List Function := []
  exports : List Export := []
  span : Option Span := none
  deriving DecidableEq

-- =============================================================== operands

namespace Operand

/-- An operand that names a variable. -/
def reference (name : String) : Operand :=
  { tag := NodeKind.identifier.tag, name := some name }

/-- An operand that is an integer, tagged with a type. -/
def integer (type : ValueType) (value : Int64) : Operand :=
  { tag := type.name, value := some (.int value) }

/-- An operand that is a float. -/
def float (value : Binary64) : Operand :=
  { tag := ValueType.f64.name, value := some (.float value) }

/-- The operand that is no value. -/
def void : Operand :=
  { tag := "Void" }

end Operand

-- ============================================================ tagged nodes

/-- A node that carries the tag of its kind if it is well formed. -/
class Node (α : Type) where
  kind : NodeKind
  tag : α → String
  span : α → Option Span

instance : Node Program := ⟨.root, Program.tag, Program.span⟩
instance : Node Identifier := ⟨.identifier, Identifier.tag, Identifier.span⟩
instance : Node Import := ⟨.functionImport, Import.tag, Import.span⟩
instance : Node Export := ⟨.functionExport, Export.tag, Export.span⟩
instance : Node Function := ⟨.functionDeclaration, Function.tag, Function.span⟩
instance : Node Param := ⟨.param, Param.tag, Param.span⟩
instance : Node Body := ⟨.functionBody, Body.tag, Body.span⟩
instance : Node Variable := ⟨.variableDeclaration, Variable.tag, Variable.span⟩
instance : Node Call := ⟨.callStatement, Call.tag, Call.span⟩
instance : Node Loop := ⟨.conditionalLoop, Loop.tag, Loop.span⟩

end Tree

end CallFlow
