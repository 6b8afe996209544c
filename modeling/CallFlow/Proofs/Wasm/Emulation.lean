/-
The stack machine does what the code says.

# The statement that carries the induction

The instructions of an expression never stand alone: there are instructions behind
them, blocks around them and values of other operands below theirs. `Emulates` is
about all of these at once. From any such configuration the machine follows the
evaluation of the expression: it comes to the instructions behind with what the
expression leaves on top of the stack; or to the frame that catches a branch; or
to the end of the run; or, where the evaluation used up its bound, it has taken
at least as many steps as the bound.

# Labels and frames

Each label in scope has a frame, in the same order, so that the number of labels
in front of the target of a branch is the number of frames to take away. The same
label may be in scope twice; both sides take the innermost. No frame is higher than
the values that were there before the expression, so what a branch cuts off is at
most what the expression itself put on the stack.

# Steps and rounds

The bound of an evaluation counts rounds of a loop, that of a run counts steps. A
round takes at least the step of the loop instruction, which is all that is needed
to compare them.
-/
import CallFlow.Proofs.Code.Soundness
import CallFlow.Proofs.Semantics.StackMachine

namespace CallFlow.Wasm

variable {σ α β : Type}

-- ============================================================ following

/-- One frame for each label, none above the given height. -/
structure Framed (labels : List String) (frames : List Frame) (height : Nat) : Prop where
  length : frames.length = labels.length
  height : ∀ frame ∈ frames, frame.height ≤ height

/-- How the machine follows an evaluation from a configuration, with the
given instructions, frames and values behind, around and below. -/
inductive Follows (M : Machine σ) (bound : Nat) (labels : List String)
    (left : α → List Constant) (rest : List Instruction) (frames : List Frame)
    (stack : List Constant) (c : Config σ) : Except Exit α × State (List Constant) σ → Prop
  | ok {n : Nat} {a : α} {s : State (List Constant) σ}
      (reach : M.Reaches n c ⟨rest, frames, left a ++ stack, s⟩) :
      Follows M bound labels left rest frames stack c (.ok a, s)
  | branch {n : Nat} {l : String} {s : State (List Constant) σ} {depth : Nat} {frame : Frame}
      (index : labels.findIdx? (fun label => label == l) = some depth)
      (target : frames[depth]? = some frame)
      (reach : M.Reaches n c ⟨frame.target, frames.drop (depth + 1),
        stack.drop (stack.length - frame.height), s⟩) :
      Follows M bound labels left rest frames stack c (.error (.branch l), s)
  | returned {n : Nat} {v : Option Constant} {c' : Config σ} (reach : M.Reaches n c c')
      (step : M.step c' = .error (.finished v)) :
      Follows M bound labels left rest frames stack c (.error (.returned v), c'.state)
  | trapped {n : Nat} {c' : Config σ} (reach : M.Reaches n c c')
      (step : M.step c' = .error .trapped) :
      Follows M bound labels left rest frames stack c (.error .trapped, c'.state)
  | outOfFuel {n : Nat} {c' : Config σ} (long : bound ≤ n) (reach : M.Reaches n c c') :
      Follows M bound labels left rest frames stack c (.error .outOfFuel, c'.state)

/-- From typed slots the machine follows a step: its instructions take
values off the stack and leave others. -/
def Emulates (M : Machine σ) (f : Function) (bound : Nat) (labels : List String)
    (taken : List Constant) (code : List Instruction) (x : Eval (List Constant) σ α)
    (left : α → List Constant) : Prop :=
  ∀ rest frames stack s, f.Typed s.store → Framed labels frames stack.length →
    Follows M bound labels left rest frames stack ⟨code ++ rest, frames, taken ++ stack, s⟩ (x s)

variable {M : Machine σ} {f : Function} {bound : Nat} {labels : List String}

section Follows

variable {left : α → List Constant} {rest : List Instruction} {frames : List Frame}
  {stack : List Constant} {c c' : Config σ}

/-- Steps in front of steps that follow an evaluation. They count for
the bound. -/
theorem Follows.after {r : Except Exit α × State (List Constant) σ} {n bound' : Nat}
    (hreach : M.Reaches n c c') (h : Follows M bound' labels left rest frames stack c' r)
    (hbound : bound ≤ n + bound') : Follows M bound labels left rest frames stack c r := by
  cases h with
  | ok reach => exact .ok (hreach.trans reach)
  | branch index target reach => exact .branch index target (hreach.trans reach)
  | returned reach step => exact .returned (hreach.trans reach) step
  | trapped reach step => exact .trapped (hreach.trans reach) step
  | outOfFuel long reach => exact .outOfFuel (by omega) (hreach.trans reach)

variable {l : String} {frame : Frame} {s : State (List Constant) σ}

/-- A branch to the innermost label comes to the innermost frame. -/
theorem Follows.caught
    (h : Follows M bound (l :: labels) left rest (frame :: frames) stack c
      (.error (.branch l), s)) :
    ∃ n, M.Reaches n c
      ⟨frame.target, frames, stack.drop (stack.length - frame.height), s⟩ := by
  cases h with
  | branch index target reach =>
    rw [List.findIdx?_cons, if_pos (beq_self_eq_true l)] at index
    cases index
    cases target
    exact ⟨_, reach⟩

/-- All other exits pass the innermost frame. -/
theorem Follows.passed {e : Exit} {left' : β → List Constant} {rest' : List Instruction}
    (h : Follows M bound (l :: labels) left rest (frame :: frames) stack c (.error e, s))
    (he : e ≠ .branch l) : Follows M bound labels left' rest' frames stack c (.error e, s) := by
  cases h with
  | @branch _ l' _ depth _ index target reach =>
    have hl : ¬(l == l') = true := fun hl => he (by rw [beq_iff_eq.mp hl])
    rw [List.findIdx?_cons, if_neg hl, Option.map_eq_some_iff] at index
    obtain ⟨d, hd, rfl⟩ := index
    exact .branch hd target reach
  | returned reach step => exact .returned reach step
  | trapped reach step => exact .trapped reach step
  | outOfFuel long reach => exact .outOfFuel long reach

end Follows

namespace Emulates

variable {P : α → Prop} {taken : List Constant} {code code' : List Instruction}
  {x : Eval (List Constant) σ α} {k : α → Eval (List Constant) σ β} {left : α → List Constant}
  {left' : β → List Constant}

/-- Nothing is done by no instructions. -/
theorem pure {a : α} (h : left a = taken) :
    Emulates M f bound labels taken [] (Pure.pure a : Eval (List Constant) σ α) left := by
  intro rest frames stack s _ _
  subst h
  exact .ok .refl

/-- A sequence is followed by the instructions of its parts in a row. -/
theorem bind (hx : Emulates M f bound labels taken code x left) (hsafe : Safe f labels P x)
    (hk : ∀ a, P a → Emulates M f bound labels (left a) code' (k a) left') :
    Emulates M f bound labels taken (code ++ code') (x >>= k) left' := by
  intro rest frames stack s hs hframes
  have hfirst := hx (code' ++ rest) frames stack s hs hframes
  have hsound := hsafe s hs
  rw [List.append_assoc, Eval.bind_apply]
  generalize x s = r at hfirst hsound ⊢
  cases hfirst with
  | ok reach =>
    cases hsound with
    | ok value typed =>
      exact .after reach (hk _ value rest frames stack _ typed hframes) (by omega)
  | branch index target reach => exact .branch index target reach
  | returned reach step => exact .returned reach step
  | trapped reach step => exact .trapped reach step
  | outOfFuel long reach => exact .outOfFuel long reach

/-- Values further down are left alone. Code that runs on a stack runs
in the same way on a higher one, because no instruction looks further
down than its operands. -/
theorem above (h : Emulates M f bound labels taken code x left) (below : List Constant) :
    Emulates M f bound labels (taken ++ below) code x fun a => left a ++ below := by
  intro rest frames stack s hs hframes
  have hbelow : Framed labels frames (below ++ stack).length :=
    ⟨hframes.length, fun frame hframe => by
      have := hframes.height frame hframe
      rw [List.length_append]
      omega⟩
  have hfirst := h rest frames (below ++ stack) s hs hbelow
  rw [List.append_assoc]
  generalize x s = r at hfirst ⊢
  cases hfirst with
  | ok reach => exact .ok (by rwa [List.append_assoc])
  | @branch _ _ _ _ frame index target reach =>
    have hheight := hframes.height frame (List.mem_of_getElem? target)
    have hdrop : (below ++ stack).drop ((below ++ stack).length - frame.height)
        = stack.drop (stack.length - frame.height) := by
      rw [List.drop_append, List.length_append, List.drop_eq_nil_of_le (by omega), List.nil_append]
      congr 1
      omega
    rw [hdrop] at reach
    exact .branch index target reach
  | returned reach step => exact .returned reach step
  | trapped reach step => exact .trapped reach step
  | outOfFuel long reach => exact .outOfFuel long reach

/-- A value may be renamed, as long as what is on the stack stays the
same. -/
theorem map (h : Emulates M f bound labels taken code x left) {g : α → β}
    (hg : ∀ a, left' (g a) = left a) :
    Emulates M f bound labels taken code (x >>= fun a => Pure.pure (g a)) left' := by
  intro rest frames stack s hs hframes
  have hfirst := h rest frames stack s hs hframes
  rw [Eval.bind_apply]
  generalize x s = r at hfirst ⊢
  cases hfirst with
  | ok reach =>
    rw [← hg] at reach
    exact .ok reach
  | branch index target reach => exact .branch index target reach
  | returned reach step => exact .returned reach step
  | trapped reach step => exact .trapped reach step
  | outOfFuel long reach => exact .outOfFuel long reach

/-- A step that gives a value is followed by one instruction that does
the same. -/
theorem of_perform {i : Instruction}
    (h : ∀ rest frames stack s, f.Typed s.store → ∃ a s', x s = (.ok a, s')
      ∧ M.perform ⟨i :: rest, frames, taken ++ stack, s⟩ rest i
        = .ok ⟨rest, frames, left a ++ stack, s'⟩) :
    Emulates M f bound labels taken [i] x left := by
  intro rest frames stack s hs _
  obtain ⟨a, s', hx, hstep⟩ := h rest frames stack s hs
  rw [hx]
  exact .ok (.one hstep)

end Emulates

-- ======================================================== instructions

theorem emulates_const (c : Constant) :
    Emulates M f bound labels [] [constantOf c] (pure (some c)) Option.toList := by
  refine .of_perform fun rest frames stack s _ => ⟨some c, s, rfl, ?_⟩
  cases c <;> rfl

/-- A slot is read onto the stack, if the function has it. -/
theorem emulates_localGet {i : Nat} {t : ValueType} (ht : f.slotType? i = some t) :
    Emulates M f bound labels [] [.localGet i] (readSlot i >>= fun c => pure (some c))
      Option.toList := by
  refine .of_perform fun rest frames stack s hs => ?_
  obtain ⟨c, hc, -⟩ := hs.get ht
  have hread : readSlot i s = (.ok c, s) := by
    simp only [readSlot, hc]
  refine ⟨some c, s, Eval.bind_apply_ok hread, ?_⟩
  simp only [Machine.perform, hc]
  rfl

/-- A value of the type of a slot is taken from the stack into it. -/
theorem emulates_localSet {i : Nat} {c : Constant} (ht : f.slotType? i = some c.type) :
    Emulates M f bound labels [c] [.localSet i] (writeSlot i c >>= fun _ => pure none)
      Option.toList := by
  refine .of_perform fun rest frames stack s hs => ?_
  obtain ⟨hi, -⟩ := hs.set ht
  have hwrite : writeSlot i c s = (.ok (), { s with store := s.store.set i c }) := by
    simp only [writeSlot, if_pos hi]
  refine ⟨none, _, Eval.bind_apply_ok hwrite, ?_⟩
  simp only [Machine.perform, List.cons_append, if_pos hi]
  rfl

/-- A call instruction takes the arguments in order, the last from the
top. -/
theorem emulates_call {i : Nat} {name : String} {type : FunctionType} {args : List Constant}
    {result : ValueType} (hcallee : M.callees[i]? = some (name, type))
    (hargs : args.length = type.params.length) (hresult : type.result = result) :
    Emulates M f bound labels args.reverse [.call i] (.invoke M.oracle name args result)
      Option.toList := by
  subst hresult
  refine .of_perform fun rest frames stack s _ => ⟨_, _, rfl, ?_⟩
  have hlength : type.params.length = args.reverse.length := by
    rw [List.length_reverse, hargs]
  have hle : type.params.length ≤ (args.reverse ++ stack).length := by
    rw [List.length_append]
    omega
  simp only [Machine.perform, hcallee, Machine.call, if_pos hle]
  rw [hlength, List.take_left, List.drop_left, List.reverse_reverse]
  rfl

/-- A load takes an address and leaves what the memory has there, or
traps where the access is out of bounds. -/
theorem step_loadOf {t : ValueType} (ht : t = .i32 ∨ t = .f64) (a : Int32)
    (rest : List Instruction) (frames : List Frame) (stack : List Constant)
    (s : State (List Constant) σ) :
    M.step ⟨loadOf t :: rest, frames, .i32 a :: stack, s⟩
      = match s.world.memory.read t.byteWidth (addressOf a) with
        | some bits => .ok ⟨rest, frames, (Constant.ofBits t bits).toList ++ stack, s⟩
        | none => .error .trapped := by
  rcases ht with rfl | rfl
  · rfl
  · rfl

/-- A load follows the access to memory, in bounds and out of them. Both
sides read the same memory at the same address. -/
theorem emulates_load {t : ValueType} (ht : t = .i32 ∨ t = .f64) (a : Int32) :
    Emulates M f bound labels [.i32 a] [loadOf t]
      (do
        let bits ← .inBounds ((← .memory).read t.byteWidth (addressOf a))
        return some (← .need (Constant.ofBits t bits)))
      Option.toList := by
  intro rest frames stack s _ _
  have hstep := step_loadOf (M := M) ht a rest frames stack s
  simp only [Eval.bind_apply, Eval.memory]
  cases hread : s.world.memory.read t.byteWidth (addressOf a) with
  | some bits =>
    rw [hread] at hstep
    rcases ht with rfl | rfl
    · exact .ok (.one hstep)
    · exact .ok (.one hstep)
  | none =>
    rw [hread] at hstep
    exact .trapped .refl hstep

/-- A store takes a value and an address and writes, or traps where the
access is out of bounds. -/
theorem step_storeOf {c : Constant} (hc : c.type = .i32 ∨ c.type = .f64) (a : Int32)
    (rest : List Instruction) (frames : List Frame) (stack : List Constant)
    (s : State (List Constant) σ) :
    M.step ⟨storeOf c.type :: rest, frames, c :: .i32 a :: stack, s⟩
      = match s.world.memory.write c.type.byteWidth (addressOf a) c.toBits with
        | some memory => .ok ⟨rest, frames, stack, { s with world := { s.world with memory } }⟩
        | none => .error .trapped := by
  cases c with
  | i32 v => rfl
  | i64 v => rcases hc with hc | hc <;> cases hc
  | f64 v => rfl

/-- A store follows the access to memory, in bounds and out of them. -/
theorem emulates_store {c : Constant} (hc : c.type = .i32 ∨ c.type = .f64) (a : Int32) :
    Emulates M f bound labels [c, .i32 a] [storeOf c.type]
      (do
        let m ← .inBounds ((← .memory).write c.type.byteWidth (addressOf a) c.toBits)
        .setMemory m
        return none)
      Option.toList := by
  intro rest frames stack s _ _
  have hstep := step_storeOf (M := M) hc a rest frames stack s
  simp only [Eval.bind_apply, Eval.memory]
  cases hwrite : s.world.memory.write c.type.byteWidth (addressOf a) c.toBits with
  | some memory =>
    rw [hwrite] at hstep
    exact .ok (.one hstep)
  | none =>
    rw [hwrite] at hstep
    exact .trapped .refl hstep

/-- The function ends with the value on top of the stack, if it promises
one. -/
theorem finish_toList (hM : M.type = .ofTypes f.params f.result) {v : Option Constant}
    (hv : valueType v = f.result) (stack : List Constant) :
    M.finish (v.toList ++ stack) = .finished v := by
  unfold Machine.finish
  rw [hM]
  cases v with
  | none =>
    rw [if_pos]
    rw [FunctionType.ofTypes, ← hv]
    rfl
  | some c =>
    rw [if_neg]
    · rfl
    · have hstorable : f.result.isStorable = true :=
        ValueType.isStorable_eq_true.mpr (hv ▸ c.type_ne_void)
      rw [FunctionType.ofTypes, List.filter_cons_of_pos hstorable]
      nofun

/-- A return takes the result of the function, if it has one, and ends
the run with it. -/
theorem emulates_ret (hM : M.type = .ofTypes f.params f.result) {v : Option Constant}
    (hv : valueType v = f.result) (left : α → List Constant) :
    Emulates M f bound labels v.toList [.ret] (.exit (.returned v)) left := by
  intro rest frames stack s _ _
  have hstep : M.step ⟨.ret :: rest, frames, v.toList ++ stack, s⟩ = .error (.finished v) :=
    congrArg Except.error (finish_toList hM hv stack)
  exact .returned .refl hstep

/-- A branch goes to the frame that stands for its label, or on. -/
theorem emulates_branchIf {l : String} {depth : Nat}
    (hindex : labels.findIdx? (fun label => label == l) = some depth) (v : Int32) :
    Emulates M f bound labels [.i32 v] [.branchIf depth]
      (if v = 0 then pure none else .exit (.branch l)) Option.toList := by
  intro rest frames stack s _ hframes
  by_cases hv : v = 0
  · rw [if_pos hv]
    have hstep : M.step ⟨.branchIf depth :: rest, frames, .i32 v :: stack, s⟩
        = .ok ⟨rest, frames, stack, s⟩ := if_pos hv
    exact .ok (.one hstep)
  · rw [if_neg hv]
    have hdepth : depth < frames.length := by
      rw [hframes.length]
      exact (List.findIdx?_eq_some_iff_findIdx_eq.mp hindex).1
    have htarget : frames[depth]? = some frames[depth] := List.getElem?_eq_getElem hdepth
    refine .branch hindex htarget (.one ?_)
    have hstep : M.step ⟨.branchIf depth :: rest, frames, .i32 v :: stack, s⟩
        = M.branch ⟨.branchIf depth :: rest, frames, .i32 v :: stack, s⟩ depth stack := if_neg hv
    rw [Machine.branch, htarget] at hstep
    exact hstep

/-- The instructions that test a value and branch. -/
def testCode (depth : Nat) : BranchTest → List Instruction
  | .zero => [.i32Eqz, .branchIf depth]
  | .nonzero => [.branchIf depth]

/-- A branch on zero is a branch on the outcome of a test for zero. The
code of a test leaves one operand, and the branch behind it takes that. -/
theorem emulates_testCode {l : String} {depth : Nat}
    (hindex : labels.findIdx? (fun label => label == l) = some depth) (v : Int32)
    (test : BranchTest) :
    Emulates M f bound labels [.i32 v] (testCode depth test)
      (if test.passes v then .exit (.branch l) else pure none) Option.toList := by
  cases test with
  | zero =>
    intro rest frames stack s hs hframes
    have hstep : M.step ⟨.i32Eqz :: .branchIf depth :: rest, frames, .i32 v :: stack, s⟩
        = .ok ⟨.branchIf depth :: rest, frames, .i32 (if v = 0 then 1 else 0) :: stack, s⟩ := rfl
    have hbranch : Emulates M f bound labels [.i32 (if v = 0 then 1 else 0)] [.branchIf depth]
        _ Option.toList := emulates_branchIf hindex _
    refine .after (.one hstep) ?_ (Nat.le_add_left bound 1)
    by_cases hv : v = 0
    · rw [if_pos hv, if_neg (by decide)] at hbranch
      rw [if_pos (BranchTest.passes_zero.mpr hv), if_pos hv]
      exact hbranch rest frames stack s hs hframes
    · rw [if_neg hv, if_pos rfl] at hbranch
      rw [if_neg (fun h => hv (BranchTest.passes_zero.mp h)), if_neg hv]
      exact hbranch rest frames stack s hs hframes
  | nonzero =>
    have hbranch : Emulates M f bound labels [.i32 v] [.branchIf depth] _ Option.toList :=
      emulates_branchIf hindex v
    by_cases hv : v = 0
    · rw [if_pos hv] at hbranch
      rw [if_neg (fun h => BranchTest.passes_nonzero.mp h hv)]
      exact hbranch
    · rw [if_neg hv] at hbranch
      rw [if_pos (BranchTest.passes_nonzero.mpr hv)]
      exact hbranch

-- ==================================================== blocks and loops

/-- Every block that the instructions enter, they leave. -/
def Balanced (code : List Instruction) : Prop :=
  ∀ depth rest, afterStop depth (code ++ rest) = afterStop depth rest

/-- Balanced code stays balanced when it is put together: the closing
instructions of the first part are used up by its own openings. -/
theorem Balanced.append {code code' : List Instruction} (h : Balanced code)
    (h' : Balanced code') : Balanced (code ++ code') := by
  intro depth rest
  rw [List.append_assoc, h, h']

-- An instruction that is no part of a block is balanced by itself.

theorem balanced_constantOf (c : Constant) : Balanced [constantOf c] := by
  intro depth rest
  cases c <;> rfl

theorem balanced_loadOf (t : ValueType) : Balanced [loadOf t] := by
  intro depth rest
  cases t <;> rfl

theorem balanced_storeOf (t : ValueType) : Balanced [storeOf t] := by
  intro depth rest
  cases t <;> rfl

theorem balanced_testCode (depth : Nat) (test : BranchTest) : Balanced (testCode depth test) := by
  intro depth rest
  cases test <;> rfl

theorem Balanced.block {code : List Instruction} (h : Balanced code) :
    Balanced (.block :: code ++ [.stop]) := by
  intro depth rest
  rw [List.cons_append, List.cons_append, List.append_assoc, afterStop, h]
  rfl

theorem Balanced.loop {code : List Instruction} (h : Balanced code) :
    Balanced (.loop :: code ++ [.stop]) := by
  intro depth rest
  rw [List.cons_append, List.cons_append, List.append_assoc, afterStop, h]
  rfl

section Blocks

variable {l : String} {code : List Instruction} {body : Eval (List Constant) σ Unit}

/-- One more label in scope is one more frame, of the height that the
stack has there. -/
theorem Framed.cons {frames : List Frame} {height : Nat} (h : Framed labels frames height)
    (target : List Instruction) : Framed (l :: labels) (⟨target, height⟩ :: frames) height :=
  ⟨congrArg (· + 1) h.length, List.forall_mem_cons.mpr ⟨Nat.le_refl height, h.height⟩⟩

/-- A block is entered and left by one instruction each, and a branch to
its label comes to the same place as its end. In both cases the stack is
as high as it was at the start. -/
theorem emulates_block (hcode : Balanced code)
    (hbody : Emulates M f bound (l :: labels) [] code body fun _ => []) :
    Emulates M f bound labels [] (.block :: code ++ [.stop]) (.untilBranch l body)
      fun _ => [] := by
  intro rest frames stack s hs hframes
  have henter : M.step ⟨.block :: code ++ [.stop] ++ rest, frames, stack, s⟩
      = .ok ⟨code ++ [.stop] ++ rest,
        ⟨afterStop 0 (code ++ [.stop] ++ rest), stack.length⟩ :: frames, stack, s⟩ := rfl
  have hafter : afterStop 0 (code ++ ([.stop] ++ rest)) = rest := hcode 0 ([.stop] ++ rest)
  rw [List.append_assoc code, hafter] at henter
  have hinside := hbody (.stop :: rest) _ stack s hs (hframes.cons rest)
  refine .after (.one henter) ?_ (Nat.le_add_left bound 1)
  generalize hr : body s = r at hinside
  obtain ⟨e | u, s'⟩ := r
  · by_cases he : e = .branch l
    · subst he
      obtain ⟨n, hreach⟩ := hinside.caught
      rw [Eval.untilBranch_of_branch hr]
      rw [Nat.sub_self, List.drop_zero] at hreach
      exact .ok hreach
    · rw [Eval.untilBranch_of_ne hr fun h => he (Except.error.inj h)]
      exact hinside.passed he
  · rw [Eval.untilBranch_of_ne hr nofun]
    cases hinside with
    | ok reach =>
      have hleave : M.step ⟨.stop :: rest, ⟨rest, stack.length⟩ :: frames, stack, s'⟩
          = .ok ⟨rest, frames, stack, s'⟩ := rfl
      exact .ok (reach.trans (.one hleave))

/-- A loop is entered anew by every branch to its label, and a round
takes at least the step that enters it. The induction is over the
rounds; with fuel for so many of them, the machine takes at least that
many steps before it is used up. -/
theorem emulates_loop {P : Unit → Prop} (hsafe : Safe f (l :: labels) P body)
    (hbody : Emulates M f bound (l :: labels) [] code body fun _ => []) {rounds : Nat}
    (hrounds : rounds ≤ bound) :
    Emulates M f rounds labels [] (.loop :: code ++ [.stop]) (.againOnBranch l body rounds)
      fun _ => [] := by
  induction rounds with
  | zero => exact fun _ _ _ _ _ _ => .outOfFuel (Nat.zero_le 0) .refl
  | succ rounds ih =>
    intro rest frames stack s hs hframes
    have henter : M.step ⟨.loop :: code ++ [.stop] ++ rest, frames, stack, s⟩
        = .ok ⟨code ++ [.stop] ++ rest,
          ⟨.loop :: code ++ [.stop] ++ rest, stack.length⟩ :: frames, stack, s⟩ := rfl
    have hinside := hbody (.stop :: rest) _ stack s hs
      (hframes.cons (.loop :: code ++ [.stop] ++ rest))
    have hsound := hsafe s hs
    rw [List.append_assoc code] at henter
    generalize hr : body s = r at hinside hsound
    obtain ⟨e | u, s'⟩ := r
    · by_cases he : e = .branch l
      · subst he
        cases hsound with
        | error allowed typed =>
          obtain ⟨n, hreach⟩ := hinside.caught
          rw [Nat.sub_self, List.drop_zero] at hreach
          rw [Eval.againOnBranch_of_branch hr]
          -- one step into the loop, then the round, then at least the rounds left
          exact .after (.step henter hreach) (ih (by omega) rest frames stack s' typed hframes)
            (by omega)
      · rw [Eval.againOnBranch_of_ne hr fun h => he (Except.error.inj h)]
        exact .after (.one henter) (hinside.passed he) (by omega)
    · rw [Eval.againOnBranch_of_ne hr nofun]
      cases hinside with
      | ok reach =>
        have hleave : M.step
            ⟨.stop :: rest, ⟨.loop :: code ++ [.stop] ++ rest, stack.length⟩ :: frames, stack, s'⟩
            = .ok ⟨rest, frames, stack, s'⟩ := rfl
        exact .ok ((Machine.Reaches.one henter).trans (reach.trans (.one hleave)))

end Blocks

end CallFlow.Wasm
