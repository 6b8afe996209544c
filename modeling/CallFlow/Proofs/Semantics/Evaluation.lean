/-
The meaning of structured code.

Code is evaluated in a monad of steps on a store and a world. A step gives a
value, or it leaves its course with an exit: a branch on its way to the block or
loop that catches it, a return, a trap, code that makes no sense, or a bound that
is used up. An exit keeps the state it was taken in.

The bound counts the rounds that one entry of a loop may take. It is handed
down unchanged, so evaluation recurses on the code alone and a loop is an
iteration of the meaning of its body.
-/
import CallFlow.Module
import CallFlow.Proofs.Semantics.World

namespace CallFlow

-- =============================================================== steps

/-- Why a step leaves its course. -/
inductive Exit where
  | branch (label : String)
  | returned (value : Option Constant)
  | trapped
  | stuck
  | outOfFuel
  deriving DecidableEq

/-- The state of a running function. -/
structure State (ν σ : Type) where
  store : ν
  world : World σ

/-- A step on a store of type `ν`. -/
def Eval (ν σ α : Type) : Type :=
  State ν σ → Except Exit α × State ν σ

namespace Eval

variable {ν σ α β : Type}

/-- Continues with the value of a step, if it has one. -/
def andThen (x : Eval ν σ α) (f : α → Eval ν σ β) : Eval ν σ β := fun s =>
  match x s with
  | (.ok a, s') => f a s'
  | (.error e, s') => (.error e, s')

instance : Monad (Eval ν σ) where
  pure a := fun s => (.ok a, s)
  bind := andThen

/-- Leaves the course. -/
def exit (e : Exit) : Eval ν σ α := fun s =>
  (.error e, s)

/-- What must be there. -/
def need : Option α → Eval ν σ α
  | some a => pure a
  | none => exit .stuck

/-- The integer that a condition or an address must be. -/
def needI32 : Option Constant → Eval ν σ Int32
  | some (.i32 v) => pure v
  | _ => exit .stuck

/-- A memory access, which must be in bounds. -/
def inBounds : Option α → Eval ν σ α
  | some a => pure a
  | none => exit .trapped

/-- Performs a call. -/
def invoke (oracle : Oracle σ) (function : String) (args : List Constant) (result : ValueType) :
    Eval ν σ (Option Constant) := fun s =>
  let (answer, world) := oracle.call function args result s.world
  (.ok answer, { s with world })

/-- The linear memory. -/
def memory : Eval ν σ LinearMemory := fun s =>
  (.ok s.world.memory, s)

/-- Replaces the linear memory. -/
def setMemory (m : LinearMemory) : Eval ν σ Unit := fun s =>
  (.ok (), { s with world := { s.world with memory := m } })

/-- Ends where a branch to the label is taken. -/
def untilBranch (label : String) (body : Eval ν σ Unit) : Eval ν σ Unit := fun s =>
  match body s with
  | (.error (.branch l), s') => if l = label then (.ok (), s') else (.error (.branch l), s')
  | r => r

/-- Starts again where a branch to the label is taken, for at most the
given number of rounds. -/
def againOnBranch (label : String) (body : Eval ν σ Unit) : (rounds : Nat) → Eval ν σ Unit
  | 0 => exit .outOfFuel
  | rounds + 1 => fun s =>
    match body s with
    | (.error (.branch l), s') =>
      if l = label then againOnBranch label body rounds s' else (.error (.branch l), s')
    | r => r

/-- Doing one evaluation after another, at a state: the second starts
where the first ended, and is skipped if the first exits. -/
theorem bind_apply (x : Eval ν σ α) (f : α → Eval ν σ β) (s : State ν σ) :
    (x >>= f) s = match x s with
      | (.ok a, s') => f a s'
      | (.error e, s') => (.error e, s') := rfl

/-- An evaluation that comes to a value hands it on, together with the
state that it leaves. -/
theorem bind_apply_ok {x : Eval ν σ α} {f : α → Eval ν σ β} {s s' : State ν σ} {a : α}
    (h : x s = (.ok a, s')) : (x >>= f) s = f a s' := by
  rw [bind_apply, h]

/-- An evaluation that exits takes everything behind it along. -/
theorem bind_apply_error {x : Eval ν σ α} {f : α → Eval ν σ β} {s s' : State ν σ} {e : Exit}
    (h : x s = (.error e, s')) : (x >>= f) s = (.error e, s') := by
  rw [bind_apply, h]

/-- Evaluations in turn may be grouped as one likes: an exit in one of
them skips all the others. -/
instance : LawfulMonad (Eval ν σ) :=
  LawfulMonad.mk' (Eval ν σ)
    (fun x => by
      funext s
      show (x >>= pure) s = x s
      rw [bind_apply]
      rcases x s with ⟨e | a, s'⟩ <;> rfl)
    (fun _ _ => rfl)
    (fun x f g => by
      funext s
      rw [bind_apply, bind_apply, bind_apply]
      rcases x s with ⟨e | a, s'⟩ <;> rfl)

theorem need_some (a : α) : (need (some a) : Eval ν σ α) = pure a := rfl

theorem needI32_some (v : Int32) : (needI32 (some (.i32 v)) : Eval ν σ Int32) = pure v := rfl

-- What catches a branch catches its own label only; all else passes.

/-- A branch to the own label ends a block, in the state in which the
branch was taken. -/
theorem untilBranch_of_branch {label : String} {body : Eval ν σ Unit} {s s' : State ν σ}
    (h : body s = (.error (.branch label), s')) : untilBranch label body s = (.ok (), s') := by
  unfold untilBranch
  rw [h]
  exact if_pos rfl

/-- A block passes on every other way to end: values, returns, traps and
branches to the labels around it. -/
theorem untilBranch_of_ne {label : String} {body : Eval ν σ Unit} {s s' : State ν σ}
    {r : Except Exit Unit} (h : body s = (r, s')) (hr : r ≠ .error (.branch label)) :
    untilBranch label body s = (r, s') := by
  unfold untilBranch
  rw [h]
  split
  next l _ heq =>
    cases heq
    exact if_neg fun hl => hr (by rw [hl])
  next => rfl

/-- A branch to the own label of a loop starts the next of its rounds,
if there is one left. -/
theorem againOnBranch_of_branch {label : String} {body : Eval ν σ Unit} {rounds : Nat}
    {s s' : State ν σ} (h : body s = (.error (.branch label), s')) :
    againOnBranch label body (rounds + 1) s = againOnBranch label body rounds s' := by
  simp only [againOnBranch, h, if_pos]

/-- A loop ends as its body does, unless that branches to the label of
the loop. -/
theorem againOnBranch_of_ne {label : String} {body : Eval ν σ Unit} {rounds : Nat}
    {s s' : State ν σ} {r : Except Exit Unit} (h : body s = (r, s'))
    (hr : r ≠ .error (.branch label)) : againOnBranch label body (rounds + 1) s = (r, s') := by
  simp only [againOnBranch, h]
  split
  next l _ heq =>
    cases heq
    exact if_neg fun hl => hr (by rw [hl])
  next => rfl

end Eval

-- =============================================================== slots

/-- The value of a slot. -/
def readSlot {σ : Type} (i : Nat) : Eval (List Constant) σ Constant := fun s =>
  match s.store[i]? with
  | some c => (.ok c, s)
  | none => (.error .stuck, s)

/-- Assigns to a slot. -/
def writeSlot {σ : Type} (i : Nat) (c : Constant) : Eval (List Constant) σ Unit := fun s =>
  if i < s.store.length then (.ok (), { s with store := s.store.set i c })
  else (.error .stuck, s)

-- ================================================================ code

namespace Expr

variable {σ : Type} (oracle : Oracle σ) (fuel : Nat)

mutual

/-- Evaluates an expression to the value that it leaves, if it leaves
one. -/
def eval : Expr → Eval (List Constant) σ (Option Constant)
  | const c => pure (some c)
  | get i _ => do
    return some (← readSlot i)
  | set i v => do
    writeSlot i (← .need (← eval v))
    return none
  | call f args t => do
    .invoke oracle f (← evalArgs args) t
  | load t a => do
    let address ← .needI32 (← eval a)
    let bits ← .inBounds ((← .memory).read t.byteWidth (addressOf address))
    return some (← .need (Constant.ofBits t bits))
  | store t a v => do
    let address ← .needI32 (← eval a)
    let value ← .need (← eval v)
    let m ← .inBounds ((← .memory).write t.byteWidth (addressOf address) value.toBits)
    .setMemory m
    return none
  | returnValue v => do
    .exit (.returned (← eval v))
  | returnNone => .exit (.returned none)
  | block l body => do
    .untilBranch l (evalAll body)
    return none
  | loop l body => do
    .againOnBranch l (evalAll body) fuel
    return none
  | branchIf l c test => do
    let v ← .needI32 (← eval c)
    if test.passes v then .exit (.branch l) else return none

/-- The values of arguments, from left to right. -/
def evalArgs : List Expr → Eval (List Constant) σ (List Constant)
  | [] => pure []
  | e :: es => do
    let c ← .need (← eval e)
    return c :: (← evalArgs es)

/-- Evaluates expressions in order for what they do. -/
def evalAll : List Expr → Eval (List Constant) σ Unit
  | [] => pure ()
  | e :: es => do
    let _ ← eval e
    evalAll es

end

/-- Statements are done in order, so two lists of them are done one
after the other. -/
theorem evalAll_append (es es' : List Expr) :
    evalAll oracle fuel (es ++ es')
      = (evalAll oracle fuel es >>= fun _ => evalAll oracle fuel es') := by
  induction es with
  | nil => rfl
  | cons e es ih => rw [List.cons_append, evalAll, evalAll, ih, bind_assoc]

/-- A block as the only statement is its body with the branches to its
label caught. -/
theorem evalAll_block (l : String) (body : List Expr) :
    evalAll oracle fuel [block l body] = .untilBranch l (evalAll oracle fuel body) := by
  simp only [evalAll, eval, bind_assoc, pure_bind]
  exact bind_pure _

/-- A loop as the only statement repeats its body for as many rounds as
there is fuel. -/
theorem evalAll_loop (l : String) (body : List Expr) :
    evalAll oracle fuel [loop l body] = .againOnBranch l (evalAll oracle fuel body) fuel := by
  simp only [evalAll, eval, bind_assoc, pure_bind]
  exact bind_pure _

end Expr

-- ========================================================== functions

/-- The ending that an evaluation of a body comes to. A body that runs
off its end gives no result, and a branch that nothing catches makes no
sense. -/
def Ending.ofBody : Except Exit Unit → Ending
  | .ok () => .finished none
  | .error (.returned v) => .finished v
  | .error (.branch _) => .stuck
  | .error .trapped => .trapped
  | .error .stuck => .stuck
  | .error .outOfFuel => .outOfFuel

namespace Function

variable {σ : Type}

/-- Runs the body of a function in a state. What it leaves behind are
the values of its slots, the host and the memory. -/
def runFrom (f : Function) (oracle : Oracle σ) (s : State (List Constant) σ) :
    Runs (List Constant × σ × LinearMemory) := fun fuel =>
  let (r, s') := Expr.evalAll oracle fuel f.body s
  { ending := .ofBody r, calls := s'.world.calls
    final := (s'.store, s'.world.host, s'.world.memory) }

/-- Runs a function with arguments. Its locals start at zero, and only
the host and the memory outlive the run. -/
def run (f : Function) (oracle : Oracle σ) (args : List Constant) (w : World σ) :
    Runs (σ × LinearMemory) := fun fuel =>
  let start := { store := args ++ f.locals.map ValueType.zero, world := w }
  let report := f.runFrom oracle start fuel
  { report with final := report.final.2 }

end Function

end CallFlow
