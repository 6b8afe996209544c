/-
The stack machine that instructions are for.

The machine works on one flat list of instructions. Entering a block or a loop
pushes a frame that says where a branch to it goes on and how high the stack was:
behind the matching `stop` for a block, at the loop instruction itself for a loop.
A branch takes the frames up to its target away, so that the loop instruction that
it repeats pushes its frame again.

A step that cannot be taken ends the machine, and what it ends with is the ending
of the run. The machine never looks at expressions, names of variables or labels.

# Runs

The bound of a run counts single steps. Steps only add to the calls performed, so
a longer run performs at least the calls of a shorter one, and a run that ended
stays as it is. From that, `sameBehaviour_of_matches` compares a machine with
any other way to run code, whatever the bound of that one counts.
-/
import CallFlow.Proofs.Semantics.Evaluation
import CallFlow.Wasm.Emit

namespace CallFlow.Wasm

-- ========================================================= the machine

/-- The type of what a function of this type leaves. -/
def FunctionType.result (t : FunctionType) : ValueType :=
  t.results.headD .void

/-- What the machine needs to know besides the code: how calls are
answered, the names and types of the functions that calls number, and
the type of the function that runs. -/
structure Machine (σ : Type) where
  oracle : Oracle σ
  callees : List (String × FunctionType)
  type : FunctionType

/-- The function types of the callable functions, in the order of their
indices. -/
def callableTypes (m : Module) : List FunctionType :=
  m.imports.map (fun i => .ofTypes i.params i.result)
    ++ m.functions.map (fun f => .ofTypes f.params f.result)

/-- The names and types of the functions of a module, in the order of
their indices. -/
def callees (m : Module) : List (String × FunctionType) :=
  m.callables.zip (callableTypes m)

/-- A block or loop that was entered. -/
structure Frame where
  /-- Where a branch to it goes on. -/
  target : List Instruction
  /-- How many values the stack had. -/
  height : Nat

/-- The machine at one moment. The top of the stack and the innermost
frame come first. -/
structure Config (σ : Type) where
  code : List Instruction
  frames : List Frame
  stack : List Constant
  state : State (List Constant) σ

/-- The instructions behind the `stop` that ends the innermost block,
with as many more blocks around the place as `depth` says. -/
def afterStop : (depth : Nat) → List Instruction → List Instruction
  | _, [] => []
  | depth, .block :: is => afterStop (depth + 1) is
  | depth, .loop :: is => afterStop (depth + 1) is
  | 0, .stop :: is => is
  | depth + 1, .stop :: is => afterStop depth is
  | depth, _ :: is => afterStop depth is

namespace Config

variable {σ : Type}

/-- Goes on with a value on the stack. -/
def push (c : Config σ) (rest : List Instruction) (v : Constant) : Config σ :=
  { c with code := rest, stack := v :: c.stack }

/-- Goes on with a value from memory in the place of its address. -/
def load (c : Config σ) (rest : List Instruction) (width : Nat) (ofBits : Nat → Constant) :
    Except Ending (Config σ) :=
  match c.stack with
  | .i32 a :: stack =>
    match c.state.world.memory.read width (addressOf a) with
    | some bits => .ok { c with code := rest, stack := ofBits bits :: stack }
    | none => .error .trapped
  | _ => .error .stuck

/-- Goes on with memory changed at an address. -/
def store (c : Config σ) (rest : List Instruction) (stack : List Constant) (width : Nat)
    (a : Int32) (bits : Nat) : Except Ending (Config σ) :=
  match c.state.world.memory.write width (addressOf a) bits with
  | some memory =>
    .ok { c with code := rest, stack
                 state := { c.state with world := { c.state.world with memory } } }
  | none => .error .trapped

/-- What a run that ends here reports. -/
def report (c : Config σ) (ending : Ending) : Report (List Constant × σ × LinearMemory) where
  ending
  calls := c.state.world.calls
  final := (c.state.store, c.state.world.host, c.state.world.memory)

end Config

namespace Machine

variable {σ : Type} (M : Machine σ)

/-- The end of the function with the given stack. -/
def finish (stack : List Constant) : Ending :=
  .finished (if M.type.results = [] then none else stack.head?)

/-- A branch out of as many blocks as `depth` says, and one more. A
branch out of all of them ends the function. -/
def branch (c : Config σ) (depth : Nat) (stack : List Constant) : Except Ending (Config σ) :=
  match c.frames[depth]? with
  | some frame =>
    .ok { c with code := frame.target, frames := c.frames.drop (depth + 1)
                 stack := stack.drop (stack.length - frame.height) }
  | none => .error (if depth = c.frames.length then M.finish stack else .stuck)

/-- A call takes its arguments off the stack, the last on top. -/
def call (c : Config σ) (rest : List Instruction) (name : String) (type : FunctionType) :
    Except Ending (Config σ) :=
  if type.params.length ≤ c.stack.length then
    let args := (c.stack.take type.params.length).reverse
    let (answer, world) := M.oracle.call name args type.result c.state.world
    .ok { c with code := rest, stack := answer.toList ++ c.stack.drop type.params.length
                 state := { c.state with world } }
  else .error .stuck

/-- Performs an instruction, with the instructions behind it. -/
def perform (c : Config σ) (rest : List Instruction) :
    Instruction → Except Ending (Config σ)
  | .i32Const v => .ok (c.push rest (.i32 v))
  | .i64Const v => .ok (c.push rest (.i64 v))
  | .f64Const v => .ok (c.push rest (.f64 v))
  | .localGet i =>
    match c.state.store[i]? with
    | some v => .ok (c.push rest v)
    | none => .error .stuck
  | .localSet i =>
    match c.stack with
    | v :: stack =>
      if i < c.state.store.length then
        .ok { c with code := rest, stack
                     state := { c.state with store := c.state.store.set i v } }
      else .error .stuck
    | [] => .error .stuck
  | .call f =>
    match M.callees[f]? with
    | some (name, type) => M.call c rest name type
    | none => .error .stuck
  | .i32Load _ => c.load rest 4 fun bits => .i32 (Int32.ofNat bits)
  | .f64Load _ => c.load rest 8 fun bits => .f64 ⟨UInt64.ofNat bits⟩
  | .i32Store _ =>
    match c.stack with
    | .i32 v :: .i32 a :: stack => c.store rest stack 4 a v.toUInt32.toNat
    | _ => .error .stuck
  | .f64Store _ =>
    match c.stack with
    | .f64 v :: .i32 a :: stack => c.store rest stack 8 a v.bits.toNat
    | _ => .error .stuck
  | .ret => .error (M.finish c.stack)
  | .block =>
    .ok { c with code := rest, frames := ⟨afterStop 0 rest, c.stack.length⟩ :: c.frames }
  | .loop =>
    .ok { c with code := rest, frames := ⟨.loop :: rest, c.stack.length⟩ :: c.frames }
  | .stop =>
    match c.frames with
    | [] => .error (M.finish c.stack)
    | _ :: frames => .ok { c with code := rest, frames }
  | .branchIf depth =>
    match c.stack with
    | .i32 v :: stack =>
      if v = 0 then .ok { c with code := rest, stack } else M.branch c depth stack
    | _ => .error .stuck
  | .i32Eqz =>
    match c.stack with
    | .i32 v :: stack =>
      .ok { c with code := rest, stack := .i32 (if v = 0 then 1 else 0) :: stack }
    | _ => .error .stuck

/-- One step, or the ending that there is no step from. -/
def step (c : Config σ) : Except Ending (Config σ) :=
  match c.code with
  | [] => .error .stuck
  | i :: rest => M.perform c rest i

/-- Runs for at most the given number of steps. -/
def run (c : Config σ) : Runs (List Constant × σ × LinearMemory)
  | 0 => c.report .outOfFuel
  | fuel + 1 =>
    match M.step c with
    | .ok c' => run c' fuel
    | .error ending => c.report ending

-- =============================================================== steps

/-- A configuration is reached in a number of steps. -/
inductive Reaches : Nat → Config σ → Config σ → Prop
  | refl {c : Config σ} : Reaches 0 c c
  | step {n : Nat} {c c' c'' : Config σ} (first : M.step c = .ok c') (rest : Reaches n c' c'') :
      Reaches (n + 1) c c''

variable {M}

theorem Reaches.one {c c' : Config σ} (h : M.step c = .ok c') : M.Reaches 1 c c' :=
  .step h .refl

theorem Reaches.trans {n n' : Nat} {c c' c'' : Config σ} (h : M.Reaches n c c')
    (h' : M.Reaches n' c' c'') : M.Reaches (n + n') c c'' := by
  induction h with
  | refl => rwa [Nat.zero_add]
  | step first _ ih =>
    rw [Nat.add_right_comm]
    exact .step first (ih h')

/-- The rest of a run goes on from where its first steps lead. -/
theorem Reaches.run_add {n : Nat} {c c' : Config σ} (h : M.Reaches n c c') (fuel : Nat) :
    M.run c (n + fuel) = M.run c' fuel := by
  induction h with
  | refl => rw [Nat.zero_add]
  | step first _ ih =>
    rw [Nat.add_right_comm, run, first]
    exact ih

/-- A run that ends at a configuration reports it. -/
theorem Reaches.run_of_error {n : Nat} {c c' : Config σ} {ending : Ending}
    (h : M.Reaches n c c') (hend : M.step c' = .error ending) :
    M.run c (n + 1) = c'.report ending := by
  rw [h.run_add, run, hend]

/-- A run with no more steps than were taken uses up its bound. -/
theorem Reaches.ending_run {n : Nat} {c c' : Config σ} (h : M.Reaches n c c') {fuel : Nat}
    (hfuel : fuel ≤ n) : (M.run c fuel).ending = .outOfFuel := by
  induction h generalizing fuel with
  | refl =>
    rw [Nat.le_zero.mp hfuel]
    rfl
  | step first _ ih =>
    cases fuel with
    | zero => rfl
    | succ fuel =>
      rw [run, first]
      exact ih (Nat.le_of_succ_le_succ hfuel)

/-- A run that ended stays as it is. -/
theorem run_of_le {c : Config σ} {fuel fuel' : Nat} (h : (M.run c fuel).ending ≠ .outOfFuel)
    (hle : fuel ≤ fuel') : M.run c fuel' = M.run c fuel := by
  induction fuel generalizing c fuel' with
  | zero => exact absurd rfl h
  | succ fuel ih =>
    obtain ⟨fuel', rfl⟩ : ∃ k, fuel' = k + 1 := ⟨fuel' - 1, by omega⟩
    rw [run] at h ⊢
    rw [run]
    cases hstep : M.step c with
    | error ending => rfl
    | ok c' =>
      rw [hstep] at h
      exact ih h (Nat.le_of_succ_le_succ hle)

-- =============================================================== calls

/-- A call that goes through is performed behind all calls before it. -/
theorem prefix_calls_call {c c' : Config σ} {rest : List Instruction} {name : String}
    {type : FunctionType} (h : M.call c rest name type = .ok c') :
    c.state.world.calls <+: c'.state.world.calls := by
  unfold call at h
  split at h
  · cases h
    exact List.prefix_append _ _
  · cases h

theorem calls_load {c c' : Config σ} {rest : List Instruction} {width : Nat}
    {ofBits : Nat → Constant} (h : c.load rest width ofBits = .ok c') :
    c'.state.world.calls = c.state.world.calls := by
  unfold Config.load at h
  repeat' split at h
  all_goals cases h
  rfl

theorem calls_store {c c' : Config σ} {rest : List Instruction} {stack : List Constant}
    {width bits : Nat} {a : Int32} (h : c.store rest stack width a bits = .ok c') :
    c'.state.world.calls = c.state.world.calls := by
  unfold Config.store at h
  split at h <;> cases h
  rfl

/-- A branch moves control and cuts the stack, but performs no call. -/
theorem calls_branch {c c' : Config σ} {depth : Nat} {stack : List Constant}
    (h : M.branch c depth stack = .ok c') : c'.state.world.calls = c.state.world.calls := by
  unfold branch at h
  split at h <;> cases h
  rfl

/-- Whatever an instruction does, the calls performed before it stay.
There is one case for each instruction, and only calls add to the calls. -/
theorem prefix_calls_perform {c c' : Config σ} {rest : List Instruction} {i : Instruction}
    (h : M.perform c rest i = .ok c') : c.state.world.calls <+: c'.state.world.calls := by
  cases i with
  | call f =>
    rw [perform] at h
    split at h
    · exact prefix_calls_call h
    · cases h
  | i32Load _ => exact calls_load h ▸ List.prefix_rfl
  | f64Load _ => exact calls_load h ▸ List.prefix_rfl
  | i32Store _ =>
    rw [perform] at h
    split at h
    · exact calls_store h ▸ List.prefix_rfl
    · cases h
  | f64Store _ =>
    rw [perform] at h
    split at h
    · exact calls_store h ▸ List.prefix_rfl
    · cases h
  | branchIf depth =>
    rw [perform] at h
    split at h
    · split at h
      · cases h
        exact List.prefix_rfl
      · exact calls_branch h ▸ List.prefix_rfl
    · cases h
  | _ =>
    -- The others change the slots, the stack and the frames only.
    simp only [perform] at h
    repeat' split at h
    all_goals cases h
    all_goals exact List.prefix_rfl

/-- No step ever takes back a call, whichever instruction it does. -/
theorem prefix_calls_step {c c' : Config σ} (h : M.step c = .ok c') :
    c.state.world.calls <+: c'.state.world.calls := by
  unfold step at h
  split at h
  · cases h
  · exact prefix_calls_perform h

/-- A longer run performs at least the calls of a shorter one. The
induction is over the steps. -/
theorem prefix_calls_run {c : Config σ} {fuel fuel' : Nat} (hle : fuel ≤ fuel') :
    (M.run c fuel).calls <+: (M.run c fuel').calls := by
  have hstart : ∀ (fuel : Nat) (c : Config σ), c.state.world.calls <+: (M.run c fuel).calls := by
    intro fuel
    induction fuel with
    | zero => exact fun c => List.prefix_rfl
    | succ fuel ih =>
      intro c
      rw [run]
      cases hstep : M.step c with
      | error ending => exact List.prefix_rfl
      | ok c' => exact (prefix_calls_step hstep).trans (ih c')
  induction fuel generalizing c fuel' with
  | zero => exact hstart fuel' c
  | succ fuel ih =>
    obtain ⟨fuel', rfl⟩ : ∃ k, fuel' = k + 1 := ⟨fuel' - 1, by omega⟩
    rw [run, run]
    cases hstep : M.step c with
    | error ending => exact List.prefix_rfl
    | ok c' => exact ih (Nat.le_of_succ_le_succ hle)

-- ========================================================== comparison

/-- The machine comes to what another run reports for a bound: to a
configuration with the same calls, in no fewer steps than the bound, if
that run used it up, and otherwise to the same end. -/
inductive Matches (M : Machine σ) (c : Config σ) (fuel : Nat)
    (report : Report (List Constant × σ × LinearMemory)) : Prop
  | outOfFuel {n : Nat} {c' : Config σ} (ending : report.ending = .outOfFuel) (long : fuel ≤ n)
      (reach : M.Reaches n c c') (calls : c'.state.world.calls = report.calls)
  | ended {n : Nat} {c' : Config σ} (ending : report.ending ≠ .outOfFuel)
      (reach : M.Reaches n c c') (step : M.step c' = .error report.ending)
      (same : c'.report report.ending = report)

namespace Matches

variable {c : Config σ} {fuel : Nat} {report : Report (List Constant × σ × LinearMemory)}

/-- With some bound the machine reports what an ended run reports. -/
theorem exists_run (h : M.Matches c fuel report) (hne : report.ending ≠ .outOfFuel) :
    ∃ n, M.run c n = report := by
  cases h with
  | outOfFuel ending _ _ _ => exact absurd ending hne
  | ended _ reach step same => exact ⟨_, (reach.run_of_error step).trans same⟩

/-- With the bound of a run that used it up, the machine uses it up as
well. -/
theorem ending_run (h : M.Matches c fuel report) (heq : report.ending = .outOfFuel) :
    (M.run c fuel).ending = .outOfFuel := by
  cases h with
  | outOfFuel _ long reach _ => exact reach.ending_run long
  | ended ending _ _ _ => exact absurd heq ending

/-- So a run of the machine that ended reports what the other run does
with its bound. -/
theorem eq_run (h : M.Matches c fuel report) (hne : (M.run c fuel).ending ≠ .outOfFuel) :
    report = M.run c fuel := by
  have hr : report.ending ≠ .outOfFuel := fun heq => hne (h.ending_run heq)
  obtain ⟨n, rfl⟩ := h.exists_run hr
  rcases Nat.le_total fuel n with hle | hle
  · rw [run_of_le hne hle]
  · rw [run_of_le hr hle]

/-- With some bound, no smaller than that of the other run, the machine
performs what the other run does. -/
theorem exists_calls (h : M.Matches c fuel report) :
    ∃ n, fuel ≤ n ∧ (M.run c n).calls = report.calls := by
  have hrun := h.exists_run
  cases h with
  | outOfFuel _ long reach calls =>
    exact ⟨_, long, (congrArg Report.calls (reach.run_add 0)).trans calls⟩
  | ended ending _ _ _ =>
    obtain ⟨n, rfl⟩ := hrun ending
    refine ⟨max fuel n, Nat.le_max_left _ _, ?_⟩
    rw [run_of_le ending (Nat.le_max_right _ _)]

end Matches

/-- A machine that comes to what another run reports for every bound
behaves like that run, whatever the bound of that run counts. -/
theorem sameBehaviour_of_matches {r : Runs (List Constant × σ × LinearMemory)} {c : Config σ}
    (h : ∀ fuel, M.Matches c fuel (r fuel)) : Runs.SameBehaviour r (M.run c) := by
  apply Runs.SameBehaviour.of_upto
  · intro n
    by_cases hr : (r n).ending = .outOfFuel
    · obtain ⟨k, -, hk⟩ := (h n).exists_calls
      exact ⟨k, .inr ⟨hr, hk ▸ List.prefix_rfl⟩⟩
    · obtain ⟨k, hk⟩ := (h n).exists_run hr
      exact ⟨k, .inl hk.symm⟩
  · -- no shorter run of the machine performs more
    intro n
    by_cases hr : (M.run c n).ending = .outOfFuel
    · obtain ⟨k, hle, hk⟩ := (h n).exists_calls
      exact ⟨n, .inr ⟨hr, hk ▸ prefix_calls_run hle⟩⟩
    · exact ⟨n, .inl ((h n).eq_run hr).symm⟩

end Machine

end CallFlow.Wasm
