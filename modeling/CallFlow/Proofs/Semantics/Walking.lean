/-
The meaning of a control-flow graph.

A walk starts at the entry. A block performs its operations and then tries its
conditional edges in order: the first whose slot is zero is taken, and if there is none,
the edge without a condition. The exit ends the walk, its last operation being a return.

The bound counts blocks, where that of structured code counts rounds of a loop. So the two
are compared through `Approximates`: a step with a smaller bound does what one with a
larger bound does, or it runs out and has performed some of the calls of the other.
-/
import CallFlow.Graph.Basic
import CallFlow.Proofs.Semantics.Evaluation

namespace CallFlow

variable {σ : Type}

-- =========================================================== operations

/-- The value that an operation reads. -/
def Value.exec : Value → Eval (List Constant) σ Constant
  | slot s => readSlot s.index
  | const c => pure c

/-- The values that an operation reads, from left to right. -/
def Value.execAll : List Value → Eval (List Constant) σ (List Constant)
  | [] => pure []
  | v :: vs => do
    let c ← v.exec
    return c :: (← execAll vs)

/-- Performs an operation. -/
def Operation.exec (oracle : Oracle σ) : Operation → Eval (List Constant) σ Unit
  | init slot value => do
    writeSlot slot.index (← value.exec)
  | call target f args result => do
    let answer ← .invoke oracle f (← Value.execAll args) result
    writeSlot target.index (← .need answer)
  | ret slot => do
    .exit (.returned (some (← readSlot slot.index)))

/-- Performs operations in order. -/
def Operation.execAll (oracle : Oracle σ) : List Operation → Eval (List Constant) σ Unit
  | [] => pure ()
  | op :: ops => do
    op.exec oracle
    execAll oracle ops

section

variable (oracle : Oracle σ) (fuel : Nat)

/-- A value of an operation is read as its expression is evaluated, and
always leaves something. -/
theorem Value.eval_toExpr (v : Value) :
    Expr.eval oracle fuel v.toExpr = (v.exec >>= fun c => pure (some c)) := by
  cases v <;> rfl

/-- The arguments of a call are read in order, whichever of the two
forms they are in. -/
theorem Value.evalArgs_map_toExpr (vs : List Value) :
    Expr.evalArgs oracle fuel (vs.map Value.toExpr) = Value.execAll vs := by
  induction vs with
  | nil => rfl
  | cons v vs ih =>
    rw [List.map_cons, Expr.evalArgs, Value.eval_toExpr, ih, bind_assoc]
    rfl

/-- The structured form of an operation does what the operation does. -/
theorem Operation.eval_toExpr (op : Operation) :
    Expr.eval oracle fuel op.toExpr = (op.exec oracle >>= fun _ => pure none) := by
  cases op with
  | init slot value =>
    rw [toExpr, Expr.eval, Value.eval_toExpr, exec, bind_assoc, bind_assoc]
    rfl
  | call target f args result =>
    rw [toExpr, Expr.eval, Expr.eval, Value.evalArgs_map_toExpr, exec]
    simp only [bind_assoc]
  | ret slot =>
    rw [toExpr, Expr.eval, Expr.ofSlot, Expr.eval, exec, bind_assoc, bind_assoc]
    rfl

/-- Operations are done as their code is, one after the other. -/
theorem Operation.evalAll_map_toExpr (ops : List Operation) :
    Expr.evalAll oracle fuel (ops.map Operation.toExpr) = Operation.execAll oracle ops := by
  induction ops with
  | nil => rfl
  | cons op ops ih =>
    rw [List.map_cons, Expr.evalAll, eval_toExpr, ih, execAll, bind_assoc]
    rfl

end

-- ================================================================ walks

/-- Whether a slot is zero. -/
def Slot.isZero (s : Slot) : Eval (List Constant) σ Bool := do
  let v ← .needI32 (some (← readSlot s.index))
  return decide (v = 0)

/-- A test changes nothing, and there is no other end to it. -/
theorem Slot.isZero_cases (s : Slot) (st : State (List Constant) σ) :
    (∃ z, s.isZero st = (.ok z, st)) ∨ s.isZero st = (.error .stuck, st) := by
  unfold isZero
  rw [Eval.bind_apply]
  unfold readSlot
  cases st.store[s.index]? with
  | none => exact .inr rfl
  | some c =>
    cases c with
    | i32 v => exact .inl ⟨decide (v = 0), rfl⟩
    | i64 v => exact .inr rfl
    | f64 v => exact .inr rfl

namespace Graph

/-- Tries edges in order: the block that the first leads to whose slot
is zero, or another. -/
def follow (otherwise : Option Nat) : List Edge → Eval (List Constant) σ Nat
  | [] => .need otherwise
  | e :: es =>
    match e.trigger with
    | .always => follow otherwise es
    | .ifZero s => do
      if ← s.isZero then return e.target else follow otherwise es

/-- Goes from a block to the exit, through at most the given number of
blocks. -/
def walk (g : Graph) (oracle : Oracle σ) : (bound v : Nat) → Eval (List Constant) σ Unit
  | 0, _ => .exit .outOfFuel
  | bound + 1, v => do
    Operation.execAll oracle (g.operations v)
    if v = g.exit then
      return ()
    else
      walk g oracle bound (← follow (g.fallthrough? v) (g.successors v))

end Graph

/-- What a step comes to in a state: its end, the calls and what it
leaves behind. -/
def Eval.report (x : Eval (List Constant) σ Unit) (s : State (List Constant) σ) :
    Report (List Constant × σ × LinearMemory) where
  ending := .ofBody (x s).1
  calls := (x s).2.world.calls
  final := ((x s).2.store, (x s).2.world.host, (x s).2.world.memory)

/-- Runs a graph in a state. -/
def Graph.run (g : Graph) (oracle : Oracle σ) (s : State (List Constant) σ) :
    Runs (List Constant × σ × LinearMemory) := fun fuel =>
  (g.walk oracle fuel g.entry).report s

/-- A run of a function is the report of an evaluation, so that what
holds of all reports holds of runs. -/
theorem Function.runFrom_eq_report (f : Function) (oracle : Oracle σ)
    (s : State (List Constant) σ) (fuel : Nat) :
    f.runFrom oracle s fuel = (Expr.evalAll oracle fuel f.body).report s :=
  rfl

-- =========================================================== plain steps

namespace Eval

variable {ν α β : Type}

/-- What follows a test may be compared for each of its answers. -/
theorem bind_bool_congr {x : Eval ν σ Bool} {f f' : Bool → Eval ν σ β} (htrue : f true = f' true)
    (hfalse : f false = f' false) : (x >>= f) = (x >>= f') := by
  congr 1
  funext b
  cases b with
  | true => exact htrue
  | false => exact hfalse

/-- A sequence has no value that its second step never has. -/
theorem bind_ne_ok {x : Eval ν σ α} {f : α → Eval ν σ β} {s s' : State ν σ} {b : β}
    (h : ∀ a s₁, x s = (.ok a, s₁) → f a s₁ ≠ (.ok b, s')) : (x >>= f) s ≠ (.ok b, s') := by
  rcases hr : x s with ⟨e | a, s₁⟩
  · rw [bind_apply_error hr]
    nofun
  · rw [bind_apply_ok hr]
    exact h a s₁ hr

/-- A step that only adds to the calls performed and never branches. -/
structure Plain (x : Eval ν σ α) : Prop where
  calls : ∀ s, s.world.calls <+: (x s).2.world.calls
  branch : ∀ {s s' e}, x s = (.error e, s') → ∀ l, e ≠ .branch l

namespace Plain

/-- Giving a value performs no call and changes no world. -/
theorem pure (a : α) : Plain (Pure.pure a : Eval ν σ α) where
  calls _ := List.prefix_rfl
  branch h := nomatch h

theorem exit {e : Exit} (he : ∀ l, e ≠ .branch l) : Plain (Eval.exit e : Eval ν σ α) where
  calls _ := List.prefix_rfl
  branch h := by
    cases h
    exact he

/-- Plain steps in turn are plain: the calls of the second come behind
those of the first. -/
theorem bind {x : Eval ν σ α} {f : α → Eval ν σ β} (hx : Plain x) (hf : ∀ a, Plain (f a)) :
    Plain (x >>= f) := by
  constructor
  · intro s
    have hs := hx.calls s
    rcases hr : x s with ⟨e | a, s'⟩
    · rw [bind_apply_error hr]
      rwa [hr] at hs
    · rw [bind_apply_ok hr]
      rw [hr] at hs
      exact hs.trans ((hf a).calls s')
  · intro s s'' e h
    rcases hr : x s with ⟨e' | a, s'⟩
    · rw [bind_apply_error hr] at h
      cases h
      exact hx.branch hr
    · rw [bind_apply_ok hr] at h
      exact (hf a).branch h

theorem need (a : Option α) : Plain (Eval.need a : Eval ν σ α) := by
  cases a with
  | none => exact exit nofun
  | some a => exact pure a

theorem needI32 (c : Option Constant) : Plain (Eval.needI32 c : Eval ν σ Int32) := by
  unfold Eval.needI32
  split
  · exact pure _
  · exact exit nofun

/-- A call is one more call behind those before it, whatever it answers. -/
theorem invoke (oracle : Oracle σ) (f : String) (args : List Constant) (t : ValueType) :
    Plain (Eval.invoke oracle f args t : Eval ν σ (Option Constant)) where
  calls _ := List.prefix_append _ _
  branch h := nomatch h

/-- Reading a slot changes nothing; a slot that is not there leaves the
machine stuck, which is no branch. -/
theorem readSlot (i : Nat) : Plain (CallFlow.readSlot i : Eval _ σ Constant) := by
  constructor
  · intro s
    unfold CallFlow.readSlot
    split <;> exact List.prefix_rfl
  · intro s s' e h
    unfold CallFlow.readSlot at h
    split at h <;> cases h
    exact nofun

theorem writeSlot (i : Nat) (c : Constant) : Plain (CallFlow.writeSlot i c : Eval _ σ Unit) := by
  constructor
  · intro s
    unfold CallFlow.writeSlot
    split <;> exact List.prefix_rfl
  · intro s s' e h
    unfold CallFlow.writeSlot at h
    split at h <;> cases h
    exact nofun

theorem isZero (s : Slot) : Plain (s.isZero : Eval _ σ Bool) :=
  (readSlot s.index).bind fun c => (needI32 (some c)).bind fun v => pure (decide (v = 0))

theorem value (v : Value) : Plain (v.exec : Eval _ σ Constant) := by
  cases v with
  | slot s => exact readSlot s.index
  | const c => exact pure c

theorem values (vs : List Value) : Plain (Value.execAll vs : Eval _ σ (List Constant)) := by
  induction vs with
  | nil => exact pure []
  | cons v vs ih => exact (value v).bind fun c => ih.bind fun cs => pure (c :: cs)

/-- An operation reads its arguments, performs its call and writes the
result, and each of these is plain. -/
theorem operation (oracle : Oracle σ) (op : Operation) : Plain (op.exec oracle) := by
  cases op with
  | init slot v => exact (value v).bind fun c => writeSlot slot.index c
  | call target f args result =>
    exact (values args).bind fun cs => (invoke oracle f cs result).bind fun answer =>
      (need answer).bind fun c => writeSlot target.index c
  | ret slot => exact (readSlot slot.index).bind fun c => exit nofun

/-- A block of operations never branches, so that only the edges of a
graph say where control goes on. -/
theorem operations (oracle : Oracle σ) (ops : List Operation) :
    Plain (Operation.execAll oracle ops) := by
  induction ops with
  | nil => exact pure ()
  | cons op ops ih => exact (operation oracle op).bind fun _ => ih

theorem ite {p : Prop} [Decidable p] {x y : Eval ν σ α} (hx : Plain x) (hy : Plain y) :
    Plain (if p then x else y) := by
  split
  · exact hx
  · exact hy

end Plain

-- ============================================================== bounds

/-- A step does what another does, or it runs out of fuel after some of
its calls. -/
def Approximates (x y : Eval ν σ Unit) : Prop :=
  ∀ s, x s = y s
    ∨ (x s).1 = .error .outOfFuel ∧ (x s).2.world.calls <+: (y s).2.world.calls

namespace Approximates

/-- Every evaluation approximates itself. -/
theorem refl (x : Eval ν σ Unit) : Approximates x x :=
  fun _ => .inl rfl

/-- Running out at once approximates whatever performs calls only. -/
theorem outOfFuel {y : Eval ν σ Unit} (hy : Plain y) :
    Approximates (Eval.exit .outOfFuel) y :=
  fun s => .inr ⟨rfl, hy.calls s⟩

/-- What comes first may be kept: approximating the rest is enough,
since the calls of the first part are the same on both sides. -/
theorem bind {x : Eval ν σ α} {f f' : α → Eval ν σ Unit} (h : ∀ a, Approximates (f a) (f' a)) :
    Approximates (x >>= f) (x >>= f') := by
  intro s
  rw [bind_apply, bind_apply]
  rcases x s with ⟨e | a, s'⟩
  · exact .inl rfl
  · exact h a s'

end Approximates

end Eval

/-- What approximates an evaluation reports the same ending, or runs out
of fuel after some of the calls. -/
theorem Eval.Approximates.upto {x y : Eval (List Constant) σ Unit} (h : Approximates x y)
    (s : State (List Constant) σ) : (x.report s).Upto (y.report s) := by
  rcases h s with heq | ⟨hout, hcalls⟩
  · left
    rw [report, report, heq]
  · right
    refine ⟨?_, hcalls⟩
    rw [report, hout]
    rfl

end CallFlow
