/-
Lowering the body of a function to operations on slots.

Parameters take the first slots, then the variables in order. A body without a
loop node that declares the sentinel variable loops under it: the first such
declaration is held back and takes the last slot. Then come the initial values in
the order of declaration, the calls, and a return of what the last call assigned.
-/
import CallFlow.Event
import CallFlow.Lowering.Operand

namespace CallFlow

open CallFlow.Tree

-- ======================================================= declarations

/-- A node must carry the tag of its kind. -/
def expectKind {α : Type} [Node α] (x : α) : Except Error Unit :=
  let kind := Node.kind α
  if Node.tag x = kind.tag then .ok ()
  else .error (.malformedNode kind.tag (Node.tag x) (Node.span x))

/-- A place that holds a value must have a type with values. -/
def requireStorable (type : ValueType) (what : String) (span : Option Span) :
    Except Error Unit :=
  if type.isStorable then .ok ()
  else .error (.malformedNode (what ++ " of type i32, i64 or f64") type.name span)

/-- Declares a name and reports its slot. -/
def declareSlot (symbols : SymbolTable) (id : Identifier) (type : ValueType) (origin : Origin) :
    Traced SymbolTable :=
  match symbols.declareAs origin id.name type id.span with
  | (.error e, _) => .fail e
  | (.ok slot, symbols) => do
    .report (.declaredSlot id.name slot)
    pure symbols

/-- Declares the parameters. -/
def declareParams (symbols : SymbolTable) : List Param → Traced SymbolTable
  | [] => pure symbols
  | p :: ps => do
    .ofExcept (expectKind p)
    .ofExcept (requireStorable p.type "parameter" p.id.span)
    let symbols ← declareSlot symbols p.id p.type .parameter
    declareParams symbols ps

/-- Whether a body loops under its sentinel variable. -/
def hasSentinel (body : Body) : Bool :=
  body.loop.isNone && body.vars.any fun v => v.id.name == sentinelName

/-- Declares the variables. If `holdBack` is set, the first declaration
of the sentinel is not declared but returned. -/
def declareVariables (symbols : SymbolTable) (holdBack : Bool) :
    List Variable → Traced (SymbolTable × Option Variable)
  | [] => pure (symbols, none)
  | v :: vs => do
    .ofExcept (expectKind v)
    .ofExcept (requireStorable v.type "local" v.id.span)
    if holdBack && v.id.name == sentinelName then
      let (symbols, _) ← declareVariables symbols false vs
      pure (symbols, some v)
    else
      let symbols ← declareSlot symbols v.id v.type .localVariable
      declareVariables symbols holdBack vs

/-- Declares the sentinel, if one was held back. -/
def declareSentinel (symbols : SymbolTable) : Option Variable → Traced SymbolTable
  | none => pure symbols
  | some v => declareSlot symbols v.id v.type .sentinel

-- ====================================================== initial values

/-- The initial values of the variables, in order. -/
def lowerInits (symbols : SymbolTable) : List Variable → Traced (List Operation)
  | [] => pure []
  | v :: vs => do
    match v.init with
    | none => lowerInits symbols vs
    | some operand => do
      let slot ← .ofExcept (symbols.resolve v.id.name v.id.span)
      let value ← .ofExcept (lowerInitializer v.id.name slot operand symbols)
      .report (.loweredInitializer (.init slot value))
      let rest ← lowerInits symbols vs
      pure (.init slot value :: rest)

-- ============================================================== calls

/-- A value with the place it was written at. -/
structure Argument where
  value : Value
  span : Option Span

/-- The arguments of a call; a `Void` operand is none. -/
def lowerArgs (symbols : SymbolTable) : List Operand → Except Error (List Argument)
  | [] => .ok []
  | o :: os => do
    let value ← lowerOperand o symbols
    let rest ← lowerArgs symbols os
    match value with
    | none => return rest
    | some value => return ⟨value, o.span⟩ :: rest

/-- The slot that a call assigns to. A parameter is never assigned. -/
def resolveTarget (call : Call) (symbols : SymbolTable) : Except Error Slot := do
  let target ← symbols.resolve call.target.name call.target.span
  if target.origin = .parameter then
    .error (.unboundIdentifier call.target.name call.target.span)
  else return target

/-- The arguments must have the types of the parameters. `position`
counts the first of them. -/
def checkArgs (callee : String) : (position : Nat) → List Argument → List ValueType →
    Except Error Unit
  | position, a :: as, t :: ts =>
    if a.value.type = t then checkArgs callee (position + 1) as ts
    else .error (.typeMismatch (.argument position callee) t a.value.type a.span)
  | _, _, _ => .ok ()

/-- The operation of a call, checked against the signature of its
callee. -/
def callOperation (functions : FunctionTable) (symbols : SymbolTable) (call : Call) :
    Except Error Operation := do
  expectKind call
  let args ← lowerArgs symbols call.args
  let target ← resolveTarget call symbols
  let callee := call.callee.name
  match functions.lookup? callee with
  | none => .error (.unknownFunction callee call.callee.span)
  | some signature => do
    if signature.params.length ≠ args.length then
      .error (.arityMismatch callee signature.params.length args.length
        (call.span <|> call.callee.span))
    checkArgs callee 1 args signature.params
    if signature.result ≠ target.type then
      .error (.typeMismatch (.callResult callee call.target.name) target.type signature.result
        call.target.span)
    return .call target callee (args.map Argument.value) target.type

/-- The operations of the calls, in order. -/
def lowerCalls (functions : FunctionTable) (symbols : SymbolTable) :
    List Call → Traced (List Operation)
  | [] => pure []
  | c :: cs => do
    let op ← .ofExcept (callOperation functions symbols c)
    .report (.loweredCall op)
    let rest ← lowerCalls functions symbols cs
    pure (op :: rest)

-- =========================================================== the body

/-- The slot that guards a loop, with the name and place to blame for
it. -/
structure Guard where
  name : String
  slot : Slot
  span : Option Span

/-- The guard of a body, if it loops. A body with a loop node has no
calls beside it. -/
def findGuard (body : Body) (symbols : SymbolTable) (sentinel : Option Variable) :
    Except Error (Option Guard) := do
  match body.loop with
  | some loop => do
    expectKind loop
    match body.calls with
    | stray :: _ =>
      .error (.malformedNode "ConditionalLoop as the only statement list" stray.tag stray.span)
    | [] => do
      let slot ← symbols.resolve loop.condition.name loop.condition.span
      return some ⟨loop.condition.name, slot, loop.condition.span⟩
  | none =>
    match symbols.slots.find? fun s => s.origin == .sentinel with
    | none => return none
    | some slot => return some ⟨sentinelName, slot, sentinel.bind fun v => v.id.span⟩

/-- A guard must be an `i32`. -/
def checkGuard : Option Guard → Except Error Unit
  | none => .ok ()
  | some g =>
    if g.slot.type = .i32 then .ok () else .error (.invalidSentinel g.name g.slot.type g.span)

/-- The calls of a body, in a loop or not. -/
def Tree.Body.allCalls (body : Body) : List Call :=
  match body.loop with
  | some loop => loop.calls
  | none => body.calls

/-- The slot that a function returns: the target of its last call, which
must have the declared type. -/
def returnSlot (f : Tree.Function) (calls : List Operation) : Except Error Slot :=
  match calls.reverse.findSome? Operation.callTarget? with
  | none => .error (.missingReturn f.name f.id.span)
  | some slot =>
    if slot.type = f.result then .ok slot
    else .error (.typeMismatch (.returnValue f.name) f.result slot.type f.id.span)

/-- A body as a list of operations. -/
structure LoweredBody where
  /-- The initial values, the calls, and one return. -/
  operations : List Operation
  symbols : SymbolTable
  returnSlot : Slot
  guard : Option Slot

/-- Lowers the body of a function against the functions it may call. -/
def lowerBody (functions : FunctionTable) (f : Tree.Function) : Traced LoweredBody := do
  let body := f.body
  .ofExcept (expectKind body)
  let symbols ← declareParams {} f.params
  let (symbols, sentinel) ← declareVariables symbols (hasSentinel body) body.vars
  let symbols ← declareSentinel symbols sentinel
  let inits ← lowerInits symbols body.vars
  let guard ← .ofExcept (findGuard body symbols sentinel)
  .ofExcept (checkGuard guard)
  let calls ← lowerCalls functions symbols body.allCalls
  let slot ← .ofExcept (returnSlot f calls)
  pure { operations := inits ++ calls ++ [.ret slot]
         symbols
         returnSlot := slot
         guard := guard.map Guard.slot }

end CallFlow
