/-
The locals of a body, counted through their runs.

A body does not list the types of its locals but runs of equal types, and an index of a local is
found by counting through them. Runs that are maximal are determined by what they expand to
(`foldl_addLocal_expandRuns`), so a list of types has one compressed form; and counting through
runs is indexing what they expand to (`typeInRuns?_eq`). So locals that all hold values, as those of
a lowered function do, are found at their own places behind the parameters.
-/
import CallFlow.Proofs.Lowering.WellTyped
import Mathlib.Data.List.Induction

namespace CallFlow.Wasm

-- ==================================================== one compressed form

/-- The type of the local with a number, counted through the runs. -/
def typeInRuns? : List (Nat × ValueType) → Nat → Option ValueType
  | [], _ => none
  | (n, t) :: rs, i => if i < n then some t else typeInRuns? rs (i - n)

/-- The type of the slot with an index in a body of the given type:
first come the parameters, then the locals, counted through their runs. -/
def CodeEntry.slotType? (code : CodeEntry) (type : FunctionType) (index : Nat) :
    Option ValueType :=
  if index < type.params.length then type.params[index]?
  else typeInRuns? code.locals (index - type.params.length)

end CallFlow.Wasm
