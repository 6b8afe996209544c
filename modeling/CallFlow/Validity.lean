/-
Validity: what a module must satisfy to be encoded.

Callable names are unique, the memory is in bounds, exports name existing
functions under distinct names, and every body uses slots, calls, memory and
labels as they are declared. The first violation decides.
-/
import CallFlow.Module

namespace CallFlow

-- ============================================================ the code

namespace Function

/-- The type of a slot that must exist. -/
def slotType (f : Function) (index : Nat) : Except CodeFault ValueType :=
  match f.slotType? index with
  | some t => .ok t
  | none => .error (.noSlot index)

end Function

namespace Expr

/-- Only `i32` and `f64` values can be loaded and stored. -/
def checkAccess (type : ValueType) : Except CodeFault Unit :=
  if type = .i32 ∨ type = .f64 then .ok () else .error (.noAccess type)

/-- An address must be an `i32`. -/
def checkAddressType (type : ValueType) : Except CodeFault Unit :=
  if type = .i32 then .ok () else .error (.badAddress type)

/-- A call must match the signature of its callee. -/
def checkCall (m : Module) (function : String) (args : List ValueType) (result : ValueType) :
    Except CodeFault Unit :=
  match m.signature? function with
  | none => .error (.unknownCallee function)
  | some (params, declared) =>
    if args = params ∧ declared = result then .ok () else .error (.callMismatch function)

mutual

/-- Checks an expression of a function inside the given labels. -/
def check (m : Module) (f : Function) (labels : List String) : Expr → Except CodeFault Unit
  | const _ => .ok ()
  | get i t => do
    let declared ← f.slotType i
    if t ≠ declared then .error (.slotRead i declared t)
  | set i v => do
    let declared ← f.slotType i
    check m f labels v
    if v.type ≠ declared then .error (.slotAssigned i declared v.type)
  | call function args result => do
    checkCall m function (args.map type) result
    checkAll m f labels args
  | load t a => do
    check m f labels a
    checkAddressType a.type
    checkAccess t
  | store t a v => do
    check m f labels a
    checkAddressType a.type
    checkAccess t
    check m f labels v
    if v.type ≠ t then .error (.storedOther t v.type)
  | returnValue v => do
    check m f labels v
    if v.type ≠ f.result then .error (.returnedOther v.type f.result)
  | returnNone => if f.result = .void then .ok () else .error (.returnedOther .void f.result)
  | block l body => checkAll m f (l :: labels) body
  | loop l body => checkAll m f (l :: labels) body
  | branchIf l c _ => do
    if !labels.contains l then .error (.branchOutside l)
    check m f labels c
    if c.type ≠ .i32 then .error (.badCondition c.type)

/-- Checks expressions in order. -/
def checkAll (m : Module) (f : Function) (labels : List String) :
    List Expr → Except CodeFault Unit
  | [] => .ok ()
  | e :: es => do
    check m f labels e
    checkAll m f labels es

end

end Expr

-- ========================================================== the module

namespace Module

/-- The first name that occurs again, with `seen` in front. -/
def repeated? (seen : List String) : List String → Option String
  | [] => none
  | n :: ns => if n ∈ seen then some n else repeated? (n :: seen) ns

/-- Callable names must be unique. -/
def checkNames (m : Module) : Except ModuleFault Unit :=
  match repeated? [] m.callables with
  | some name => .error (.definedTwice name)
  | none => .ok ()

/-- The memory must start within its limit, and the limit within what
can be addressed. -/
def checkMemory (m : Module) : Except ModuleFault Unit :=
  if maxPages < m.memory.maximumPages then .error (.tooManyPages m.memory.maximumPages)
  else if m.memory.maximumPages < m.memory.initialPages then
    .error (.initialAboveMaximum m.memory.initialPages m.memory.maximumPages)
  else .ok ()

/-- Exports must name callable functions under names not yet used. -/
def checkExports (callables used : List String) : List Export → Except ModuleFault Unit
  | [] => .ok ()
  | e :: es =>
    if e.function ∉ callables then .error (.exportUnknown e.name e.function)
    else if e.name ∈ used then .error (.exportTwice e.name)
    else checkExports callables (e.name :: used) es

/-- Checks the bodies of functions in order. -/
def checkBodies (m : Module) : List Function → Except ModuleFault Unit
  | [] => .ok ()
  | f :: fs =>
    match Expr.checkAll m f [] f.body with
    | .error fault => .error (.inFunction f.name fault)
    | .ok () => checkBodies m fs

/-- Checks that a module can be encoded. -/
def validate (m : Module) : Except ModuleFault Unit := do
  m.checkNames
  m.checkMemory
  checkExports m.callables [m.memory.exportName] m.exports
  m.checkBodies m.functions

end Module

end CallFlow
