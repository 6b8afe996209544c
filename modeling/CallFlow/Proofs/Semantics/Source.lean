/-
The meaning of a function as it is written.

Variables are known by name. The parameters hold the arguments and every other
variable starts at zero; the initial values are assigned in the order of
declaration; then the calls run, once or as long as the guard is not zero when a
round is due. The result is what the last call, as the calls are written, assigns
to: its target is read at the end, whether or not the call ran.

Nothing here knows of slots, operations or labels. What a call may be asked to
return is the one thing taken from the table of functions.
-/
import CallFlow.Lowering.Body
import CallFlow.Proofs.Semantics.Evaluation

namespace CallFlow.Tree

variable {σ : Type}

-- =========================================================== variables

/-- The values of the declared variables, by name. -/
abbrev Env := String → Option Constant

/-- The value of a variable. -/
def readVariable (name : String) : Eval Env σ Constant := fun s =>
  match s.store name with
  | some c => (.ok c, s)
  | none => (.error .stuck, s)

/-- The values after an assignment. -/
def Env.assign (env : Env) (name : String) (c : Constant) : Env := fun n =>
  if n = name then some c else env n

/-- Assigns to a variable, which must be declared. -/
def writeVariable (name : String) (c : Constant) : Eval Env σ Unit := fun s =>
  match s.store name with
  | some _ => (.ok (), { s with store := s.store.assign name c })
  | none => (.error .stuck, s)

-- ========================================================== statements

/-- The value of an operand; `Void` has none. A literal must fit its
type. -/
def Operand.eval (o : Operand) : Eval Env σ (Option Constant) :=
  match o.kind with
  | .ok (.reference name) => do
    return some (← readVariable name)
  | .ok (.integer .i32 n) =>
    let v := Int32.ofInt n.toInt
    if v.toInt = n.toInt then pure (some (.i32 v)) else .exit .stuck
  | .ok (.integer _ n) => pure (some (.i64 n))
  | .ok (.float x) => pure (some (.f64 x))
  | .ok .void => pure none
  | .error _ => .exit .stuck

/-- The values of operands, from left to right and without those of
`Void`. -/
def evalOperands : List Operand → Eval Env σ (List Constant)
  | [] => pure []
  | o :: os => do
    let v ← o.eval
    return v.toList ++ (← evalOperands os)

/-- Gives a variable its initial value, if it has one. -/
def Variable.initialize (v : Variable) : Eval Env σ Unit :=
  match v.init with
  | none => pure ()
  | some o => do
    writeVariable v.id.name (← .need (← o.eval))

/-- Gives variables their initial values in order. -/
def initializeAll : List Variable → Eval Env σ Unit
  | [] => pure ()
  | v :: vs => do
    v.initialize
    initializeAll vs

/-- Performs a call and assigns its answer, of the type that the callee
returns. -/
def Call.exec (functions : FunctionTable) (oracle : Oracle σ) (c : Call) : Eval Env σ Unit := do
  let args ← evalOperands c.args
  let signature ← .need (functions.lookup? c.callee.name)
  let answer ← .invoke oracle c.callee.name args signature.result
  writeVariable c.target.name (← .need answer)

/-- Performs calls in order. -/
def execAll (functions : FunctionTable) (oracle : Oracle σ) : List Call → Eval Env σ Unit
  | [] => pure ()
  | c :: cs => do
    c.exec functions oracle
    execAll functions oracle cs

/-- Whether a variable is not zero. -/
def isNonzero (name : String) : Eval Env σ Bool := do
  let v ← .needI32 (some (← readVariable name))
  return v != 0

/-- Repeats a step as long as a variable is not zero, tested before each
round, for at most the given number of rounds. -/
def whileNonzero (name : String) (body : Eval Env σ Unit) : (rounds : Nat) → Eval Env σ Unit
  | 0 => do
    if ← isNonzero name then .exit .outOfFuel
  | rounds + 1 => do
    if ← isNonzero name then
      body
      whileNonzero name body rounds

-- =========================================================== functions

/-- The variable that guards the calls of a body: the condition of its
loop node or, without such a node, the sentinel variable if it is
declared. -/
def Body.guard? (body : Body) : Option String :=
  match body.loop with
  | some loop => some loop.condition.name
  | none =>
    if body.vars.any fun v => v.id.name == sentinelName then some sentinelName else none

/-- Performs the calls of a body, once or under its guard. -/
def Body.execCalls (body : Body) (functions : FunctionTable) (oracle : Oracle σ) (fuel : Nat) :
    Eval Env σ Unit :=
  match body.guard? with
  | none => execAll functions oracle body.allCalls
  | some name => whileNonzero name (execAll functions oracle body.allCalls) fuel

/-- The target of the last call as the calls are written. -/
def Body.output? (body : Body) : Option String :=
  body.allCalls.getLast?.map fun c => c.target.name

namespace Function

/-- The variables at the start. -/
def initialEnv (f : Function) (args : List Constant) : Env := fun name =>
  ((f.params.map fun p => p.id.name).zip args
    ++ f.body.vars.map fun v => (v.id.name, v.type.zero)).lookup name

/-- Evaluates a function to its result. -/
def exec (f : Function) (functions : FunctionTable) (oracle : Oracle σ) (fuel : Nat) :
    Eval Env σ Constant := do
  initializeAll f.body.vars
  f.body.execCalls functions oracle fuel
  readVariable (← .need f.body.output?)

/-- Runs a function with arguments. -/
def run (f : Function) (functions : FunctionTable) (oracle : Oracle σ) (args : List Constant)
    (w : World σ) : Runs (σ × LinearMemory) := fun fuel =>
  let (r, s) := f.exec functions oracle fuel { store := f.initialEnv args, world := w }
  let ending := match r with
    | .ok c => .finished (some c)
    | .error e => .ofBody (.error e)
  { ending, calls := s.world.calls, final := (s.world.host, s.world.memory) }

end Function

end CallFlow.Tree
