/-
Runs under watch.

What a run reads from its slots leaves no trace in its report. A watched run records every read,
with the number of the slot and the value that it gave, in the order of the reads. Watching changes
nothing else: a watched run without its record is the run itself (`watchAll_forgets`), so what holds
of every record of a watched run holds of every read of the run.

The use made of it here is a frame property. Code that assigns only to slots from a number on leaves
the slots below it alone, through every round of every loop, and so every read of one of them gives
the value that it had at the start (`reads_runWatched`).
-/
import CallFlow.Proofs.Semantics.Evaluation

namespace CallFlow

variable {σ α β : Type}

-- ====================================================== recorded reads

/-- A read of a slot, with the value that it gave. -/
structure Read where
  index : Nat
  value : Constant
  deriving DecidableEq

/-- Slots under watch: their values, and the reads until now, in order. -/
structure Watched where
  slots : List Constant
  reads : List Read := []

/-- The state without the record. -/
def State.forget (s : State Watched σ) : State (List Constant) σ where
  store := s.store.slots
  world := s.world

namespace Eval

/-- A step that is not recorded. -/
def unrecorded (x : Eval (List Constant) σ α) : Eval Watched σ α := fun s =>
  let (r, s') := x s.forget
  (r, { store := { s.store with slots := s'.store }, world := s'.world })

/-- Records a read. -/
def record (r : Read) : Eval Watched σ Unit := fun s =>
  (.ok (), { s with store := { s.store with reads := s.store.reads ++ [r] } })

end Eval

/-- The value of a slot; the read is recorded. -/
def watchSlot (i : Nat) : Eval Watched σ Constant := do
  let c ← .unrecorded (readSlot i)
  .record ⟨i, c⟩
  return c

namespace Expr

variable (oracle : Oracle σ) (fuel : Nat)

mutual

/-- Evaluates an expression under watch. -/
def watch : Expr → Eval Watched σ (Option Constant)
  | const c => pure (some c)
  | get i _ => do
    return some (← watchSlot i)
  | set i v => do
    .unrecorded (writeSlot i (← .need (← watch v)))
    return none
  | call f args t => do
    .invoke oracle f (← watchArgs args) t
  | load t a => do
    let address ← .needI32 (← watch a)
    let bits ← .inBounds ((← .memory).read t.byteWidth (addressOf address))
    return some (← .need (Constant.ofBits t bits))
  | store t a v => do
    let address ← .needI32 (← watch a)
    let value ← .need (← watch v)
    let m ← .inBounds ((← .memory).write t.byteWidth (addressOf address) value.toBits)
    .setMemory m
    return none
  | returnValue v => do
    .exit (.returned (← watch v))
  | returnNone => .exit (.returned none)
  | block l body => do
    .untilBranch l (watchAll body)
    return none
  | loop l body => do
    .againOnBranch l (watchAll body) fuel
    return none
  | branchIf l c test => do
    let v ← .needI32 (← watch c)
    if test.passes v then .exit (.branch l) else return none

/-- The values of arguments, from left to right, under watch. -/
def watchArgs : List Expr → Eval Watched σ (List Constant)
  | [] => pure []
  | e :: es => do
    let c ← .need (← watch e)
    return c :: (← watchArgs es)

/-- Evaluates expressions in order, under watch. -/
def watchAll : List Expr → Eval Watched σ Unit
  | [] => pure ()
  | e :: es => do
    let _ ← watch e
    watchAll es

end

end Expr

-- ==================================================== nothing is changed

namespace Eval

/-- A watched step does what a step does, the record apart. -/
def Forgets (x : Eval Watched σ α) (y : Eval (List Constant) σ α) : Prop :=
  ∀ s, y s.forget = ((x s).1, (x s).2.forget)

namespace Forgets

/-- Giving a value records nothing, so there is nothing to forget. -/
theorem pure (a : α) : Forgets (Pure.pure a : Eval Watched σ α) (Pure.pure a) :=
  fun _ => rfl

theorem exit (e : Exit) : Forgets (Eval.exit e : Eval Watched σ α) (Eval.exit e) :=
  fun _ => rfl

/-- If each of two steps only adds a record, so do both together: the
value handed on is the same with and without the record. -/
theorem bind {x : Eval Watched σ α} {y : Eval (List Constant) σ α} {k : α → Eval Watched σ β}
    {l : α → Eval (List Constant) σ β} (h : Forgets x y) (hk : ∀ a, Forgets (k a) (l a)) :
    Forgets (x >>= k) (y >>= l) := by
  intro s
  rw [bind_apply, bind_apply, h s]
  rcases x s with ⟨e | a, s'⟩
  · rfl
  · exact hk a s'

theorem need (o : Option α) : Forgets (Eval.need o : Eval Watched σ α) (Eval.need o) := by
  cases o with
  | none => exact exit .stuck
  | some a => exact pure a

theorem needI32 (o : Option Constant) :
    Forgets (Eval.needI32 o : Eval Watched σ Int32) (Eval.needI32 o) := by
  intro s
  unfold Eval.needI32
  split <;> rfl

theorem inBounds (o : Option α) :
    Forgets (Eval.inBounds o : Eval Watched σ α) (Eval.inBounds o) := by
  cases o with
  | none => exact exit .trapped
  | some a => exact pure a

theorem memory : Forgets (Eval.memory : Eval Watched σ LinearMemory) Eval.memory :=
  fun _ => rfl

theorem setMemory (m : LinearMemory) :
    Forgets (Eval.setMemory m : Eval Watched σ Unit) (Eval.setMemory m) :=
  fun _ => rfl

theorem invoke (oracle : Oracle σ) (function : String) (args : List Constant)
    (result : ValueType) :
    Forgets (Eval.invoke oracle function args result : Eval Watched σ _)
      (Eval.invoke oracle function args result) :=
  fun _ => rfl

/-- What is done without recording is what was to be done. -/
theorem unrecorded (x : Eval (List Constant) σ α) : Forgets (Eval.unrecorded x) x :=
  fun _ => rfl

/-- The one place where watching differs: the read is recorded, and then
is a read. -/
theorem watchSlot (i : Nat) : Forgets (CallFlow.watchSlot i : Eval _ σ _) (readSlot i) := by
  rw [← bind_pure (readSlot i)]
  exact (unrecorded (readSlot i)).bind fun c _ => rfl

/-- A block catches the same branches with a record as without. -/
theorem untilBranch {l : String} {x : Eval Watched σ Unit} {y : Eval (List Constant) σ Unit}
    (h : Forgets x y) : Forgets (Eval.untilBranch l x) (Eval.untilBranch l y) := by
  intro s
  rcases hx : x s with ⟨r, s'⟩
  have hy : y s.forget = (r, s'.forget) := by rw [h s, hx]
  by_cases hr : r = .error (.branch l)
  · subst hr
    rw [untilBranch_of_branch hx, untilBranch_of_branch hy]
  · rw [untilBranch_of_ne hx hr, untilBranch_of_ne hy hr]

/-- By induction over the rounds: each round of the watched loop forgets
to one of the other. -/
theorem againOnBranch {l : String} {x : Eval Watched σ Unit} {y : Eval (List Constant) σ Unit}
    (h : Forgets x y) (rounds : Nat) :
    Forgets (Eval.againOnBranch l x rounds) (Eval.againOnBranch l y rounds) := by
  induction rounds with
  | zero => exact exit .outOfFuel
  | succ rounds ih =>
    intro s
    rcases hx : x s with ⟨r, s'⟩
    have hy : y s.forget = (r, s'.forget) := by rw [h s, hx]
    by_cases hr : r = .error (.branch l)
    · subst hr
      rw [againOnBranch_of_branch hx, againOnBranch_of_branch hy]
      exact ih s'
    · rw [againOnBranch_of_ne hx hr, againOnBranch_of_ne hy hr]

end Forgets

end Eval

namespace Expr

variable (oracle : Oracle σ) (fuel : Nat)

mutual

/-- Watching an expression does not change what it comes to. The
recursion is over the expression, as that of the evaluation itself. -/
theorem watch_forgets : ∀ e, (watch oracle fuel e).Forgets (eval oracle fuel e)
  | const c => .pure (some c)
  | get i _ => (Eval.Forgets.watchSlot i).bind fun c => .pure (some c)
  | set i v => (watch_forgets v).bind fun o => (Eval.Forgets.need o).bind fun c =>
      (Eval.Forgets.unrecorded _).bind fun _ => .pure none
  | call f args t => (watchArgs_forgets args).bind fun cs => .invoke oracle f cs t
  | load t a => (watch_forgets a).bind fun o => (Eval.Forgets.needI32 o).bind fun _ =>
      Eval.Forgets.memory.bind fun _ => (Eval.Forgets.inBounds _).bind fun _ =>
        (Eval.Forgets.need _).bind fun c => .pure (some c)
  | store t a v => (watch_forgets a).bind fun o => (Eval.Forgets.needI32 o).bind fun _ =>
      (watch_forgets v).bind fun o' => (Eval.Forgets.need o').bind fun _ =>
        Eval.Forgets.memory.bind fun _ => (Eval.Forgets.inBounds _).bind fun m =>
          (Eval.Forgets.setMemory m).bind fun _ => .pure none
  | returnValue v => (watch_forgets v).bind fun o => .exit (.returned o)
  | returnNone => .exit (.returned none)
  | block _ body => (watchAll_forgets body).untilBranch.bind fun _ => .pure none
  | loop _ body => ((watchAll_forgets body).againOnBranch fuel).bind fun _ => .pure none
  | branchIf l c test => by
    refine (watch_forgets c).bind fun o => (Eval.Forgets.needI32 o).bind fun v => ?_
    split
    · exact .exit (.branch l)
    · exact .pure none

/-- The arguments of a call, one after the other, under their records. -/
theorem watchArgs_forgets : ∀ es, (watchArgs oracle fuel es).Forgets (evalArgs oracle fuel es)
  | [] => .pure []
  | e :: es => (watch_forgets e).bind fun o => (Eval.Forgets.need o).bind fun c =>
      (watchArgs_forgets es).bind fun cs => .pure (c :: cs)

/-- Watching code does not change what it comes to. -/
theorem watchAll_forgets : ∀ es, (watchAll oracle fuel es).Forgets (evalAll oracle fuel es)
  | [] => .pure ()
  | e :: es => (watch_forgets e).bind fun _ => watchAll_forgets es

end

end Expr

-- ====================================================== kept properties

namespace Eval

variable {ν : Type} {I : ν → Prop}

/-- A step keeps a property of the store, whatever it comes to. -/
def Keeps (I : ν → Prop) (x : Eval ν σ α) : Prop :=
  ∀ s, I s.store → I (x s).2.store

namespace Keeps

/-- A step that leaves the store alone keeps all its properties. -/
theorem of_store {x : Eval ν σ α} (h : ∀ s, (x s).2.store = s.store) : Keeps I x := by
  intro s hs
  rw [h s]
  exact hs

/-- A value leaves the state alone, and with it every invariant. -/
theorem pure (a : α) : Keeps I (Pure.pure a : Eval ν σ α) :=
  .of_store fun _ => rfl

theorem exit (e : Exit) : Keeps I (Eval.exit e : Eval ν σ α) :=
  .of_store fun _ => rfl

/-- An invariant that each of two steps keeps is kept by both, also
where the second is skipped. -/
theorem bind {x : Eval ν σ α} {k : α → Eval ν σ β} (h : Keeps I x) (hk : ∀ a, Keeps I (k a)) :
    Keeps I (x >>= k) := by
  intro s hs
  have hx := h s hs
  rw [bind_apply]
  rcases hr : x s with ⟨e | a, s'⟩
  · rw [hr] at hx
    exact hx
  · rw [hr] at hx
    exact hk a s' hx

theorem need (o : Option α) : Keeps I (Eval.need o : Eval ν σ α) := by
  cases o with
  | none => exact .exit .stuck
  | some a => exact .pure a

theorem needI32 (o : Option Constant) : Keeps I (Eval.needI32 o : Eval ν σ Int32) := by
  refine .of_store fun s => ?_
  unfold Eval.needI32
  split <;> rfl

theorem inBounds (o : Option α) : Keeps I (Eval.inBounds o : Eval ν σ α) := by
  cases o with
  | none => exact .exit .trapped
  | some a => exact .pure a

theorem memory : Keeps I (Eval.memory : Eval ν σ LinearMemory) :=
  .of_store fun _ => rfl

/-- The memory is no part of what an invariant speaks of. -/
theorem setMemory (m : LinearMemory) : Keeps I (Eval.setMemory m : Eval ν σ Unit) :=
  .of_store fun _ => rfl

/-- A call changes the world only, and no invariant looks at that. -/
theorem invoke (oracle : Oracle σ) (function : String) (args : List Constant)
    (result : ValueType) : Keeps I (Eval.invoke oracle function args result : Eval ν σ _) :=
  .of_store fun _ => rfl

/-- To catch a branch does not touch the store. -/
theorem untilBranch {l : String} {x : Eval ν σ Unit} (h : Keeps I x) :
    Keeps I (Eval.untilBranch l x) := by
  intro s hs
  have hx := h s hs
  rcases hr : x s with ⟨r, s'⟩
  rw [hr] at hx
  by_cases hb : r = .error (.branch l)
  · subst hb
    rw [untilBranch_of_branch hr]
    exact hx
  · rw [untilBranch_of_ne hr hb]
    exact hx

/-- What one round keeps, any number of rounds keeps. -/
theorem againOnBranch {l : String} {x : Eval ν σ Unit} (h : Keeps I x) (rounds : Nat) :
    Keeps I (Eval.againOnBranch l x rounds) := by
  induction rounds with
  | zero => exact .exit .outOfFuel
  | succ rounds ih =>
    intro s hs
    have hx := h s hs
    rcases hr : x s with ⟨r, s'⟩
    rw [hr] at hx
    by_cases hb : r = .error (.branch l)
    · subst hb
      rw [againOnBranch_of_branch hr]
      exact ih s' hx
    · rw [againOnBranch_of_ne hr hb]
      exact hx

end Keeps

end Eval

-- ======================================================== slots left alone

/-- The slots below a number hold the given values, and every recorded
read of one of them gave its value. -/
structure Watched.Steady (p : Nat) (values : List Constant) (s : Watched) : Prop where
  slots : ∀ i < p, s.slots[i]? = values[i]?
  reads : ∀ r ∈ s.reads, r.index < p → values[r.index]? = some r.value

namespace Watched.Steady

variable {p i : Nat} {values : List Constant}

/-- Reading a steady slot records the value that it has had from the
start. -/
theorem watchSlot : Eval.Keeps (Steady p values) (CallFlow.watchSlot i : Eval _ σ _) := by
  intro s hs
  unfold CallFlow.watchSlot
  rw [Eval.bind_apply, Eval.unrecorded, readSlot]
  cases hc : s.forget.store[i]? with
  | none => exact hs
  | some c =>
    refine ⟨hs.slots, fun r hr hp => ?_⟩
    rcases List.mem_append.mp hr with hold | hnew
    · exact hs.reads r hold hp
    · rw [List.mem_singleton.mp hnew] at hp ⊢
      exact (hs.slots i hp).symm.trans hc

/-- A write to a slot behind the steady ones is none of their business. -/
theorem writeSlot {c : Constant} (hi : p ≤ i) :
    Eval.Keeps (Steady p values) (.unrecorded (CallFlow.writeSlot i c) : Eval _ σ _) := by
  intro s hs
  unfold Eval.unrecorded CallFlow.writeSlot
  by_cases hlength : i < s.forget.store.length
  · rw [if_pos hlength]
    refine ⟨fun j hj => ?_, hs.reads⟩
    have hne : i ≠ j := by omega
    exact (List.getElem?_set_ne hne).trans (hs.slots j hj)
  · rw [if_neg hlength]
    exact hs

end Watched.Steady

/-- Code assigns only to slots from a number on. -/
def Expr.WritesFrom (p : Nat) (code : List Expr) : Prop :=
  ∀ i v, set i v ∈ code → p ≤ i

namespace Expr

variable (oracle : Oracle σ) (fuel : Nat) {p : Nat} {values : List Constant}

/-- Fewer statements write to fewer slots. -/
theorem WritesFrom.mono {es es' : List Expr} (h : WritesFrom p es) (hs : ∀ e ∈ es', e ∈ es) :
    WritesFrom p es' :=
  fun i v hv => h i v (hs _ hv)

mutual

/-- By recursion over the expression. The only case that does anything
is a write, and writes are behind the steady slots at every depth. -/
theorem watch_steady : ∀ e, WritesFrom p e.walk →
    Eval.Keeps (Watched.Steady p values) (watch oracle fuel e)
  | const c, _ => .pure (some c)
  | get i _, _ => Watched.Steady.watchSlot.bind fun c => .pure (some c)
  | set i v, h => by
    refine (watch_steady v (h.mono fun _ => List.mem_cons_of_mem _)).bind fun o => ?_
    refine (Eval.Keeps.need o).bind fun c => ?_
    exact (Watched.Steady.writeSlot (h i v List.mem_cons_self)).bind fun _ => .pure none
  | call f args t, h => by
    refine (watchArgs_steady args (h.mono fun _ => List.mem_cons_of_mem _)).bind fun cs => ?_
    exact .invoke oracle f cs t
  | load t a, h => by
    refine (watch_steady a (h.mono fun _ => List.mem_cons_of_mem _)).bind fun o => ?_
    refine (Eval.Keeps.needI32 o).bind fun _ => Eval.Keeps.memory.bind fun _ => ?_
    refine (Eval.Keeps.inBounds _).bind fun _ => ?_
    exact (Eval.Keeps.need _).bind fun c => .pure (some c)
  | store t a v, h => by
    have ha : WritesFrom p a.walk :=
      h.mono fun _ he => List.mem_append_left _ (List.mem_cons_of_mem _ he)
    have hv : WritesFrom p v.walk := h.mono fun _ => List.mem_append_right _
    refine (watch_steady a ha).bind fun o => (Eval.Keeps.needI32 o).bind fun _ => ?_
    refine (watch_steady v hv).bind fun o' => (Eval.Keeps.need o').bind fun _ => ?_
    refine Eval.Keeps.memory.bind fun _ => (Eval.Keeps.inBounds _).bind fun m => ?_
    exact (Eval.Keeps.setMemory m).bind fun _ => .pure none
  | returnValue v, h =>
    (watch_steady v (h.mono fun _ => List.mem_cons_of_mem _)).bind fun o => .exit (.returned o)
  | returnNone, _ => .exit (.returned none)
  | block _ body, h =>
    (watchAll_steady body (h.mono fun _ => List.mem_cons_of_mem _)).untilBranch.bind
      fun _ => .pure none
  | loop _ body, h =>
    ((watchAll_steady body (h.mono fun _ => List.mem_cons_of_mem _)).againOnBranch fuel).bind
      fun _ => .pure none
  | branchIf l c test, h => by
    refine (watch_steady c (h.mono fun _ => List.mem_cons_of_mem _)).bind fun o => ?_
    refine (Eval.Keeps.needI32 o).bind fun v => ?_
    split
    · exact .exit (.branch l)
    · exact .pure none

/-- The arguments of a call, each of them inside the whole. -/
theorem watchArgs_steady : ∀ es, WritesFrom p (walkAll es) →
    Eval.Keeps (Watched.Steady p values) (watchArgs oracle fuel es)
  | [], _ => .pure []
  | e :: es, h => by
    refine (watch_steady e (h.mono fun _ => List.mem_append_left _)).bind fun o => ?_
    refine (Eval.Keeps.need o).bind fun c => ?_
    refine (watchArgs_steady es (h.mono fun _ => List.mem_append_right _)).bind fun cs => ?_
    exact .pure (c :: cs)

/-- Code that assigns only to slots from a number on leaves the slots
below it alone. -/
theorem watchAll_steady : ∀ es, WritesFrom p (walkAll es) →
    Eval.Keeps (Watched.Steady p values) (watchAll oracle fuel es)
  | [], _ => .pure ()
  | e :: es, h => by
    refine (watch_steady e (h.mono fun _ => List.mem_append_left _)).bind fun _ => ?_
    exact watchAll_steady es (h.mono fun _ => List.mem_append_right _)

end

end Expr

-- ============================================================= functions

namespace Function

/-- Runs a function with arguments, under watch: the report of the run,
and the reads that it performed. -/
def runWatched (f : Function) (oracle : Oracle σ) (args : List Constant) (w : World σ)
    (fuel : Nat) : Report (σ × LinearMemory) × List Read :=
  let start := { store := { slots := args ++ f.locals.map ValueType.zero }, world := w }
  let (r, s) := Expr.watchAll oracle fuel f.body start
  ({ ending := .ofBody r, calls := s.world.calls, final := (s.world.host, s.world.memory) },
    s.store.reads)

variable (f : Function) (oracle : Oracle σ) (args : List Constant) (w : World σ) (fuel : Nat)

/-- A watched run reports what the run reports. -/
theorem runWatched_report : (f.runWatched oracle args w fuel).1 = f.run oracle args w fuel := by
  have h := Expr.watchAll_forgets oracle fuel f.body
    { store := { slots := args ++ f.locals.map ValueType.zero }, world := w }
  simp only [run, runFrom]
  rw [State.forget] at h
  rw [h]
  rfl

/-- Where the code assigns to no argument, every read of an argument
gives what was passed. -/
theorem reads_runWatched {p : Nat} (hp : p ≤ args.length)
    (h : Expr.WritesFrom p (Expr.walkAll f.body)) :
    ∀ r ∈ (f.runWatched oracle args w fuel).2, r.index < p → args[r.index]? = some r.value := by
  refine (Expr.watchAll_steady oracle fuel f.body h _ ⟨fun i hi => ?_, ?_⟩).reads
  · exact List.getElem?_append_left (Nat.lt_of_lt_of_le hi hp)
  · exact fun r hr => absurd hr List.not_mem_nil

end Function

end CallFlow
