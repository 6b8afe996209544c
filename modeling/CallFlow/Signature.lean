/-
Signatures of callable functions, and the table of all that a call or an export
may name.
-/
import CallFlow.Error

namespace CallFlow

/-- Where a callable function comes from. -/
inductive FunctionKind where
  /-- The host provides it. -/
  | imported
  /-- Every module has it. -/
  | builtin
  /-- The program declares it. -/
  | user
  deriving DecidableEq

/-- The types of the parameters and of the result of a function. -/
structure Signature where
  params : List ValueType
  result : ValueType
  kind : FunctionKind
  deriving DecidableEq

namespace Signature

/-- A signature from declared types; a parameter of type `void` takes no
argument. -/
def ofTypes (types : List ValueType) (result : ValueType) (kind : FunctionKind) : Signature :=
  { params := types.filter ValueType.isStorable, result, kind }

/-- How a signature is written. -/
def text (s : Signature) : String :=
  "(" ++ ValueType.commaList s.params ++ ") -> " ++ s.result.name

end Signature

/-- The callable functions in the order of their registration. -/
structure FunctionTable where
  entries : List (String × Signature) := []
  deriving DecidableEq

namespace FunctionTable

/-- The signature of a name. -/
def lookup? (t : FunctionTable) (name : String) : Option Signature :=
  t.entries.lookup name

/-- Whether a name is callable. -/
def contains (t : FunctionTable) (name : String) : Bool :=
  (t.lookup? name).isSome

/-- The number of callable functions. -/
def size (t : FunctionTable) : Nat :=
  t.entries.length

/-- Registers a function. A name that is taken is an error at the place
of the new declaration. -/
def define (t : FunctionTable) (name : String) (signature : Signature) (span : Option Span) :
    Except Error FunctionTable :=
  if t.contains name then .error (.duplicateDeclaration name span)
  else .ok { entries := t.entries ++ [(name, signature)] }

end FunctionTable

end CallFlow
