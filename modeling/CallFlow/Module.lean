/-
Modules: imports, functions, exports and one linear memory, ready to be encoded.
-/
import CallFlow.Graph.Basic
import CallFlow.Signature
import CallFlow.Text.Utf8

namespace CallFlow

/-- Bytes that are copied into memory at the start. -/
structure Segment where
  offset : UInt32
  bytes : List UInt8
  deriving DecidableEq

/-- The memory of a module; sizes are counted in pages of 64 KiB. -/
structure Memory where
  initialPages : UInt32 := 1
  maximumPages : UInt32 := 256
  exportName : String := "_mem"
  segments : List Segment := [⟨10, Text.utf8 "hello, world"⟩]
  deriving DecidableEq

/-- A function of the host. -/
structure Import where
  name : String
  module : String
  base : String
  params : List ValueType
  result : ValueType
  deriving DecidableEq

/-- The external name of a function. -/
structure Export where
  function : String
  name : String
  deriving DecidableEq

/-- A function with its code. Its slots are the parameters and then the
locals. -/
structure Function where
  name : String
  params : List ValueType
  locals : List ValueType
  result : ValueType
  body : List Expr
  /-- The names of the slots, which serve readers only. -/
  slotNames : List String
  /-- The graph that a looping body was rendered from. -/
  graph : Option Graph := none
  kind : FunctionKind

namespace Function

/-- The number of slots. -/
def slotCount (f : Function) : Nat :=
  f.params.length + f.locals.length

/-- The type of a slot. -/
def slotType? (f : Function) (index : Nat) : Option ValueType :=
  (f.params ++ f.locals)[index]?

/-- The name of a slot. -/
def slotName? (f : Function) (index : Nat) : Option String :=
  f.slotNames[index]?

/-- Whether the body loops. -/
def hasLoop (f : Function) : Bool :=
  f.graph.isSome

end Function

/-- A whole module. The builtin functions come before those of the
program. -/
structure Module where
  imports : List Import
  functions : List Function
  exports : List Export
  memory : Memory

namespace Module

/-- The names of all callable functions in the order of their indices. -/
def callables (m : Module) : List String :=
  m.imports.map Import.name ++ m.functions.map Function.name

/-- The import with a name. -/
def import? (m : Module) (name : String) : Option Import :=
  m.imports.find? fun i => i.name == name

/-- The function with a name. -/
def function? (m : Module) (name : String) : Option Function :=
  m.functions.find? fun f => f.name == name

/-- The index of a callable function: imports come first. -/
def index? (m : Module) (name : String) : Option Nat :=
  match m.imports.findIdx? fun i => i.name == name with
  | some i => some i
  | none => (m.functions.findIdx? fun f => f.name == name).map (m.imports.length + ·)

/-- The types of the parameters and of the result of a callable
function. -/
def signature? (m : Module) (name : String) : Option (List ValueType × ValueType) :=
  match m.import? name with
  | some i => some (i.params, i.result)
  | none => (m.function? name).map fun f => (f.params, f.result)

/-- The functions of the program. -/
def userFunctions (m : Module) : List Function :=
  m.functions.filter fun f => f.kind == .user

end Module

end CallFlow
