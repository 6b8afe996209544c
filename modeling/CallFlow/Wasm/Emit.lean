/-
Emitting a module in the binary format.
-/
import CallFlow.Dictionary
import CallFlow.Event
import CallFlow.Validity
import CallFlow.Wasm.Binary

namespace CallFlow.Wasm

-- =============================================================== types

/-- Function types, each kept once. -/
structure TypeTable where
  /-- The types in the order of their first use. -/
  types : List FunctionType := []
  /-- The place of each type. -/
  indices : Dictionary FunctionType Nat := {}

/-- The place of a function type, which is added behind the others if it
is new. The place comes with the table that is left. -/
def TypeTable.indexOf (t : TypeTable) (params : List ValueType) (result : ValueType) :
    Nat × TypeTable :=
  let key := FunctionType.ofTypes params result
  match t.indices.get? key with
  | some index => (index, t)
  | none =>
    let index := t.types.length
    (index, { types := t.types ++ [key], indices := t.indices.insert key index })

/-- The entries of imports in order, and the table with their types. -/
def importEntries (types : TypeTable) : List Import → List ImportEntry × TypeTable
  | [] => ([], types)
  | i :: is =>
    let (type, types) := types.indexOf i.params i.result
    let (rest, types) := importEntries types is
    ({ module := i.module, base := i.base, type } :: rest, types)

-- ================================================================ code

/-- One more local behind runs of locals: the last run grows if it is of
that type, and else a new run starts. -/
def addLocal (runs : List (Nat × ValueType)) (t : ValueType) : List (Nat × ValueType) :=
  match runs.getLast? with
  | some (n, u) => if u = t then runs.dropLast ++ [(n + 1, u)] else runs ++ [(1, t)]
  | none => runs ++ [(1, t)]

/-- The runs of the locals that hold values. -/
def localRuns (locals : List ValueType) : List (Nat × ValueType) :=
  (locals.filter ValueType.isStorable).foldl addLocal []

/-- The code of a function. -/
def functionCode (indices : Dictionary String Nat) (f : Function) :
    Except ModuleFault CodeEntry := do
  let code ← instructionsAll indices.get? [] f.body
  return { locals := localRuns f.locals, instructions := code ++ [.stop] }

/-- The types and the code of functions in order, and the table with
their types. -/
def functionEntries (indices : Dictionary String Nat) (types : TypeTable) :
    List Function → Except ModuleFault (List Nat × List CodeEntry × TypeTable)
  | [] => .ok ([], [], types)
  | f :: fs => do
    let (type, types) := types.indexOf f.params f.result
    let code ← functionCode indices f
    let (rest, codes, types) ← functionEntries indices types fs
    return (type :: rest, code :: codes, types)

-- ============================================================= sections

/-- The entries of segments in order. An offset must be a nonnegative
`i32`. -/
def dataEntries : List Segment → Except ModuleFault (List DataEntry)
  | [] => .ok []
  | s :: ss => do
    if s.offset < 0x80000000 then
      let rest ← dataEntries ss
      return { offset := Int32.ofNat s.offset.toNat, bytes := s.bytes } :: rest
    else .error (.offsetTooLarge s.offset)

/-- The index of a name. -/
def indexIn (indices : Dictionary String Nat) (name : String) : Except ModuleFault Nat :=
  match indices.get? name with
  | some i => .ok i
  | none => .error (.noIndex name)

/-- The exported functions in order. -/
def exportEntries (indices : Dictionary String Nat) :
    List Export → Except ModuleFault (List ExportEntry)
  | [] => .ok []
  | e :: es => do
    let i ← indexIn indices e.function
    let rest ← exportEntries indices es
    return { name := e.name, target := .function i } :: rest

/-- The names of callable functions under their indices. -/
def callableNames (indices : Dictionary String Nat) :
    List String → Except ModuleFault (List (Nat × String))
  | [] => .ok []
  | n :: ns => do
    let i ← indexIn indices n
    let rest ← callableNames indices ns
    return (i, n) :: rest

/-- The names of the slots of functions under the indices of the
functions. -/
def localNames (indices : Dictionary String Nat) :
    List Function → Except ModuleFault (List (Nat × List (Nat × String)))
  | [] => .ok []
  | f :: fs => do
    let i ← indexIn indices f.name
    let rest ← localNames indices fs
    return (i, f.slotNames.zipIdx.map fun (n, slot) => (slot, n)) :: rest

/-- The names of all callable functions and of the slots of all
functions. -/
def moduleNames (m : Module) (indices : Dictionary String Nat) : Except ModuleFault Names := do
  let functions ← callableNames indices m.callables
  let locals ← localNames indices m.functions
  return { functions, locals }

/-- The index of each callable function: imports come first. A later
function of a name would take the place of an earlier one. -/
def indexMap (m : Module) : Dictionary String Nat :=
  .ofPairs m.callables.zipIdx

/-- The sections of a module that stand before its data. -/
def link (m : Module) : Except ModuleFault Binary := do
  let (imports, types) := importEntries {} m.imports
  let (functions, codes, types) ← functionEntries (indexMap m) types m.functions
  let exports ← exportEntries (indexMap m) m.exports
  return { types := types.types
           imports
           functions
           initialPages := m.memory.initialPages
           maximumPages := m.memory.maximumPages
           exports := { name := m.memory.exportName, target := .memory } :: exports
           codes
           data := []
           names := none }

/-- The names of a module, if they are wanted. -/
def namesIf (wanted : Bool) (m : Module) : Except ModuleFault (Option Names) :=
  if wanted then do return some (← moduleNames m (indexMap m)) else .ok none

/-- The sections of a module, with names or without. -/
def binary (m : Module) (names : Bool) : Except ModuleFault Binary := do
  m.validate
  let linked ← link m
  let data ← dataEntries m.memory.segments
  let names ← namesIf names m
  return { linked with data, names }

/-- The binary of a module, with names or without. -/
def emit (m : Module) (names : Bool) : Traced (List UInt8) := do
  match binary m names with
  | .error fault => .fail (.invalidModule fault)
  | .ok b => do
    let bytes := b.encode
    .report (.emittedBinary bytes.length)
    pure bytes

end CallFlow.Wasm
