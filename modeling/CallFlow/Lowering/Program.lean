/-
Lowering a program to a module.

First every callable name is registered: imports, builtins, then the functions of
the program, so that a call may name a function declared later. Then the bodies
are lowered, then the exports. A session keeps the table of the latest
registration, as far as it came.
-/
import CallFlow.Builtin
import CallFlow.Lowering.Body
import CallFlow.Lowering.Reconstruct

namespace CallFlow

-- ========================================================= registration

/-- A callable name to be registered, with what its declaration comes
to. -/
structure Registration where
  name : String
  signature : Except Error Signature
  span : Option Span

/-- The types of parameters, all of which must be storable. -/
def storableTypes : List Tree.Param → Except Error (List ValueType)
  | [] => .ok []
  | p :: ps => do
    requireStorable p.type "parameter" p.id.span
    return p.type :: (← storableTypes ps)

/-- The registration of an import. -/
def Tree.Import.registration (i : Tree.Import) : Registration where
  name := i.id.name
  signature := do
    expectKind i
    return .ofTypes i.params i.result .imported
  span := i.id.span

/-- The registration of a builtin. -/
def Builtin.registration (b : Builtin) : Registration where
  name := b.name
  signature := .ok b.signature
  span := none

/-- The registration of a function of the program. -/
def Tree.Function.registration (f : Tree.Function) : Registration where
  name := f.name
  signature := do
    expectKind f
    return .ofTypes (← storableTypes f.params) f.result .user
  span := f.id.span

/-- All registrations of a program, in order. -/
def Tree.Program.registrations (p : Tree.Program) : List Registration :=
  p.imports.map Tree.Import.registration
    ++ Builtin.all.map Builtin.registration
    ++ p.functions.map Tree.Function.registration

/-- Registers names up to the first that fails. The table is what was
registered until then. -/
def register (functions : FunctionTable) : List Registration → FunctionTable × Traced Unit
  | [] => (functions, pure ())
  | r :: rs =>
    match r.signature with
    | .error e => (functions, .fail e)
    | .ok signature =>
      let reported := Traced.report (.registeredFunction r.name signature)
      match functions.define r.name signature r.span with
      | .error e => (functions, do reported; .fail e)
      | .ok functions =>
        let (functions, rest) := register functions rs
        (functions, do reported; rest)

-- ============================================================ functions

/-- Lowers a function whose callees are registered. -/
def lowerFunction (functions : FunctionTable) (f : Tree.Function) : Traced Function := do
  let lowered ← lowerBody functions f
  let params := lowered.symbols.parameterTypes
  let locals := lowered.symbols.localTypes
  let (body, graph) ← reconstruct lowered.operations lowered.guard
  .report (.loweredFunction f.name params.length locals.length graph.isSome lowered.returnSlot)
  pure { name := f.name, params, locals, result := f.result, body
         slotNames := lowered.symbols.names, graph, kind := .user }

/-- Lowers functions in order. -/
def lowerFunctions (functions : FunctionTable) : List Tree.Function → Traced (List Function)
  | [] => pure []
  | f :: fs => do
    let lowered ← lowerFunction functions f
    let rest ← lowerFunctions functions fs
    pure (lowered :: rest)

-- ==================================================== imports and exports

/-- The import that an import node stands for. -/
def lowerImport (i : Tree.Import) : Import where
  name := i.id.name
  module := i.module
  base := i.base
  params := i.params.filter ValueType.isStorable
  result := i.result

/-- Reports an event if a condition holds. -/
def reportIf (condition : Bool) (event : Event) : Traced Unit :=
  if condition then .report event else pure ()

/-- Lowers exports in order. A function that was exported before and an
external name that was used before are reported, but are no errors here. -/
def lowerExports (functions : FunctionTable) (exported names : List String) :
    List Tree.Export → Traced (List Export)
  | [] => pure []
  | e :: es => do
    .ofExcept (expectKind e)
    let function := e.id.name
    if functions.contains function then
      reportIf (exported.contains function) (.exportedAgain function e.name)
      reportIf (names.contains e.name) (.exportNameAgain function e.name)
      let rest ← lowerExports functions (function :: exported) (e.name :: names) es
      pure ({ function, name := e.name } :: rest)
    else .fail (.unknownExport function e.id.span)

-- ============================================================= sessions

/-- A lowering session: the functions registered last, and the memory
that every module gets. -/
structure Session where
  functions : FunctionTable := {}
  memory : Memory := {}

namespace Session

/-- Lowers the parts of a program to a module, whatever the tag of the
program. -/
def assemble (s : Session) (p : Tree.Program) : Session × Traced Module :=
  let (functions, registered) := register {} p.registrations
  ({ s with functions }, do
    registered
    let lowered ← lowerFunctions functions p.functions
    let exports ← lowerExports functions [] [] p.exports
    let module : Module :=
      { imports := p.imports.map lowerImport
        functions := Builtin.functions ++ lowered
        exports
        memory := s.memory }
    .report (.assembledModule module.imports.length module.functions.length
      module.exports.length)
    pure module)

/-- Lowers a program to a module. A program with the wrong tag leaves
the session as it was. -/
def lowerProgram (s : Session) (p : Tree.Program) : Session × Traced Module :=
  match expectKind p with
  | .error e => (s, .fail e)
  | .ok () => s.assemble p

end Session

/-- Lowers a program to a module with the given memory. -/
def lower (memory : Memory) (p : Tree.Program) : Traced Module :=
  (Session.lowerProgram { memory } p).2

end CallFlow
