/-
Slots: the numbered storage of one function, and the table that gives every
declared name its slot.

Slots are numbered in the order of declaration, and parameters, variables and the
sentinel share one name space. The table answers from three fields, each kept up
to date by every declaration: what a name stands for, what the numbers are called,
and how many of the slots are parameters.
-/
import CallFlow.Dictionary
import CallFlow.Error

namespace CallFlow

/-- What a slot was declared as. -/
inductive Origin where
  | parameter
  | localVariable
  /-- The variable that guards a loop in a body without a loop node. -/
  | sentinel
  deriving DecidableEq

/-- A storage place of a function. -/
structure Slot where
  index : Nat
  type : ValueType
  origin : Origin
  deriving DecidableEq

namespace Slot

/-- Whether the slot holds a parameter. -/
def isParameter (s : Slot) : Bool :=
  s.origin == .parameter

/-- How a slot is written. -/
def text (s : Slot) : String :=
  "$" ++ toString s.index ++ ":" ++ s.type.name

end Slot

/-- The names declared in a function, kept three times: as a map to the
slots, as a list in the order of the slots, and as a count of the
parameters. -/
structure SymbolTable where
  /-- The slot of each name. -/
  symbols : Dictionary String Slot := {}
  /-- The names in the order of their slots. -/
  names : List String := []
  /-- The number of parameters. -/
  parameterCount : Nat := 0
  deriving DecidableEq

namespace SymbolTable

/-- The slot of a name. -/
def lookup? (t : SymbolTable) (name : String) : Option Slot :=
  t.symbols.get? name

/-- The slots in order. A name that is missing from the map would have
none. -/
def slots (t : SymbolTable) : List Slot :=
  t.names.filterMap t.lookup?

/-- The number of slots. -/
def size (t : SymbolTable) : Nat :=
  t.names.length

/-- The name of the slot with a number. -/
def nameOf? (t : SymbolTable) (index : Nat) : Option String :=
  t.names[index]?

/-- Declares a name, which takes the next slot. A name that is declared
already is an error at the place of the new declaration. The answer
comes with the table that is left. -/
def declare (t : SymbolTable) (name : String) (type : ValueType) (origin : Origin)
    (span : Option Span) : Except Error Slot × SymbolTable :=
  if t.symbols.contains name then (.error (.duplicateDeclaration name span), t)
  else
    let slot := { index := t.names.length, type, origin }
    (.ok slot, { t with symbols := t.symbols.insert name slot, names := t.names ++ [name] })

/-- Declares a parameter, which counts. -/
def declareParameter (t : SymbolTable) (name : String) (type : ValueType) (span : Option Span) :
    Except Error Slot × SymbolTable :=
  match t.declare name type .parameter span with
  | (.error e, t) => (.error e, t)
  | (.ok slot, t) => (.ok slot, { t with parameterCount := t.parameterCount + 1 })

/-- Declares a local variable. -/
def declareLocal (t : SymbolTable) (name : String) (type : ValueType) (span : Option Span) :
    Except Error Slot × SymbolTable :=
  t.declare name type .localVariable span

/-- Declares the sentinel. -/
def declareSentinel (t : SymbolTable) (name : String) (type : ValueType) (span : Option Span) :
    Except Error Slot × SymbolTable :=
  t.declare name type .sentinel span

/-- Declares a name as what it is to be. -/
def declareAs (t : SymbolTable) : (origin : Origin) → (name : String) → (type : ValueType) →
    (span : Option Span) → Except Error Slot × SymbolTable
  | .parameter => t.declareParameter
  | .localVariable => t.declareLocal
  | .sentinel => t.declareSentinel

/-- The slot of a name that must be declared. -/
def resolve (t : SymbolTable) (name : String) (span : Option Span) : Except Error Slot :=
  match t.lookup? name with
  | some slot => .ok slot
  | none => .error (.unboundIdentifier name span)

/-- The types of the parameters in order. -/
def parameterTypes (t : SymbolTable) : List ValueType :=
  (t.slots.filter Slot.isParameter).map Slot.type

/-- The types of the slots that are no parameters, in order. -/
def localTypes (t : SymbolTable) : List ValueType :=
  (t.slots.filter fun s => !s.isParameter).map Slot.type

end SymbolTable

end CallFlow
