/-
Rendering preserves meaning, if the latch waits for one slot.

A pass through blocks of the chain is the same step on both sides: it performs the
operations of a block, tests its conditions and goes on with the next block or leaves for
the exit. Structured code is such passes with branches in between (`evalAll_chainCode`,
`againOnBranch_roundCode`), and so is a walk (`walk_approximates`, `approximates_walk`).

The latch is different: a walk tests all its conditions, while the code goes round again
as soon as the first does not hold. A graph whose latch waits for two slots is accepted and
rendered to a loop that may never end where the walk ends (`twoTests_unfaithful`).
-/
import CallFlow.Proofs.Graph.Layout
import CallFlow.Proofs.Semantics.Walking

namespace CallFlow.Graph

open Eval (Plain Approximates)

variable {σ : Type} {g : Graph} (oracle : Oracle σ)

-- =============================================================== passes

/-- Whether one of some slots is zero; they are tested in order until
one is. -/
def anyZero : List Slot → Eval (List Constant) σ Bool
  | [] => pure false
  | s :: ss => do
    if ← s.isZero then return true else anyZero ss

/-- Runs a block and says whether one of its conditions holds. -/
def pass (g : Graph) (v : Nat) : Eval (List Constant) σ Bool := do
  Operation.execAll oracle (g.operations v)
  anyZero (g.conditions v)

/-- Runs blocks until a condition of one holds, and says whether that
happened. -/
def passAll (g : Graph) : List Nat → Eval (List Constant) σ Bool
  | [] => pure false
  | v :: vs => do
    if ← g.pass oracle v then return true else passAll g vs

/-- Repeats a round of blocks until a condition holds, and says whether
one in front of the latch did. -/
def spin (g : Graph) (body : List Nat) (latch : Nat) : (rounds : Nat) → Eval (List Constant) σ Bool
  | 0 => .exit .outOfFuel
  | rounds + 1 => do
    if ← g.passAll oracle body then
      return true
    else if ← g.pass oracle latch then
      return false
    else
      spin g body latch rounds

/-- Runs blocks and then rounds of others, and says whether a condition
in front of the latch held. -/
def lap (g : Graph) (front body : List Nat) (latch rounds : Nat) :
    Eval (List Constant) σ Bool := do
  if ← g.passAll oracle front then return true else g.spin oracle body latch rounds

/-- Runs the exit. -/
def finish (g : Graph) : Eval (List Constant) σ Unit :=
  Operation.execAll oracle (g.operations g.exit)

theorem plain_anyZero (ss : List Slot) : Plain (anyZero ss : Eval _ σ Bool) := by
  induction ss with
  | nil => exact .pure false
  | cons s ss ih => exact (Plain.isZero s).bind fun _ => .ite (.pure true) ih

/-- To pass a block takes no branch: the conditions behind it answer
whether the graph is left, and it is for the walk to go there. -/
theorem plain_pass (v : Nat) : Plain (g.pass oracle v) :=
  (Plain.operations oracle _).bind fun _ => plain_anyZero _

/-- To pass blocks in order takes no branch, since to pass one does not. -/
theorem plain_passAll (vs : List Nat) : Plain (g.passAll oracle vs) := by
  induction vs with
  | nil => exact .pure false
  | cons v vs ih => exact (plain_pass oracle v).bind fun _ => .ite (.pure true) ih

/-- The rounds of a loop take no branch: whether another one begins is
decided by the test of the latch. -/
theorem plain_spin (body : List Nat) (latch rounds : Nat) :
    Plain (g.spin oracle body latch rounds) := by
  induction rounds with
  | zero => exact .exit nofun
  | succ rounds ih =>
    exact (plain_passAll oracle body).bind fun _ =>
      .ite (.pure true) ((plain_pass oracle latch).bind fun _ => .ite (.pure false) ih)

theorem plain_lap (front body : List Nat) (latch rounds : Nat) :
    Plain (g.lap oracle front body latch rounds) :=
  (plain_passAll oracle front).bind fun _ => .ite (.pure true) (plain_spin oracle _ _ _)

theorem plain_finish : Plain (g.finish oracle) :=
  Plain.operations oracle _

/-- Blocks are passed in order, and those behind a block that leaves the
graph are not passed at all. -/
theorem passAll_append (vs ws : List Nat) :
    g.passAll oracle (vs ++ ws)
      = (g.passAll oracle vs >>= fun left => if left then pure true else g.passAll oracle ws) := by
  induction vs with
  | nil => rfl
  | cons v vs ih =>
    rw [List.cons_append, passAll, passAll, ih, bind_assoc]
    exact Eval.bind_bool_congr rfl rfl

-- ================================================================= code

/-- Leaves for the exit if a condition held. -/
def leave (left : Bool) : Eval (List Constant) σ Unit :=
  if left then .exit (.branch exitLabel) else pure ()

/-- A branch on zero tests its slot and is taken if that is zero. -/
theorem eval_branchOn_zero (fuel : Nat) (l : String) (s : Slot) :
    Expr.eval oracle fuel (.branchOn l s .zero)
      = (s.isZero >>= fun z => if z then .exit (.branch l) else pure none) := by
  rw [Expr.branchOn, Expr.ofSlot, Expr.eval, Expr.eval, Slot.isZero]
  simp only [bind_assoc]
  rfl

/-- A branch on anything but zero tests its slot and is taken if that is
not zero. -/
theorem eval_branchOn_nonzero (fuel : Nat) (l : String) (s : Slot) :
    Expr.eval oracle fuel (.branchOn l s .nonzero)
      = (s.isZero >>= fun z => if z then pure none else .exit (.branch l)) := by
  have htest : ∀ v : Int32,
      (if BranchTest.nonzero.passes v then .exit (.branch l) else pure none
          : Eval (List Constant) σ (Option Constant))
        = if decide (v = 0) then pure none else .exit (.branch l) := by
    intro v
    by_cases hv : v = 0
    · rw [if_neg fun h => BranchTest.passes_nonzero.mp h hv, if_pos (decide_eq_true hv)]
    · rw [if_pos (BranchTest.passes_nonzero.mpr hv), if_neg fun h => hv (of_decide_eq_true h)]
  rw [Expr.branchOn, Expr.ofSlot, Expr.eval, Expr.eval, Slot.isZero]
  simp only [bind_assoc, pure_bind, htest]

/-- A row of branches out leaves if one of the conditions is zero, and
tests no condition behind the first of those. -/
theorem evalAll_branches (fuel : Nat) (ss : List Slot) :
    Expr.evalAll oracle fuel (ss.map fun s => .branchOn exitLabel s .zero)
      = (anyZero ss >>= leave) := by
  induction ss with
  | nil => rfl
  | cons s ss ih =>
    rw [List.map_cons, Expr.evalAll, eval_branchOn_zero, ih, anyZero, bind_assoc,
      bind_assoc]
    exact Eval.bind_bool_congr rfl rfl

/-- The code of a block passes the block, and takes the branch out where
the graph is left. -/
theorem evalAll_blockCode (fuel : Nat) (v : Nat) :
    Expr.evalAll oracle fuel (g.blockCode v) = (g.pass oracle v >>= leave) := by
  rw [blockCode, Expr.evalAll_append, Operation.evalAll_map_toExpr, evalAll_branches, pass,
    bind_assoc]

/-- The code of a chain passes its blocks, by induction over them. -/
theorem evalAll_chainCode (fuel : Nat) (vs : List Nat) :
    Expr.evalAll oracle fuel (g.chainCode vs) = (g.passAll oracle vs >>= leave) := by
  induction vs with
  | nil => rfl
  | cons v vs ih =>
    rw [chainCode, List.flatMap_cons, Expr.evalAll_append, evalAll_blockCode, ← chainCode, ih,
      passAll, bind_assoc, bind_assoc]
    exact Eval.bind_bool_congr rfl rfl

/-- Conditions that wait for one slot are one test. -/
theorem anyZero_eq_isZero {s : Slot} {ss : List Slot} (h : ∀ s' ∈ ss, s' = s) :
    (anyZero (s :: ss) : Eval _ σ Bool) = s.isZero := by
  induction ss with
  | nil =>
    rw [← bind_pure s.isZero]
    exact Eval.bind_bool_congr rfl rfl
  | cons s' ss ih =>
    obtain ⟨rfl, h⟩ := List.forall_mem_cons.mp h
    funext st
    rcases s'.isZero_cases st with ⟨z, hz⟩ | hz
    · rw [anyZero, Eval.bind_apply_ok hz]
      cases z with
      | true => exact hz.symm
      | false => exact congrFun (ih h) st
    · rw [anyZero, Eval.bind_apply_error hz, hz]

/-- A round of the loop leaves for the exit, ends at the latch or goes
round again. -/
theorem evalAll_roundCode (fuel : Nat) (body : List Nat) {latch : Nat} {s : Slot}
    {ss : List Slot} (hconditions : g.conditions latch = s :: ss) (hone : ∀ s' ∈ ss, s' = s) :
    Expr.evalAll oracle fuel (g.roundCode body latch s)
      = (g.passAll oracle body >>= fun left =>
          if left then .exit (.branch exitLabel)
          else g.pass oracle latch >>= fun left =>
            if left then pure () else .exit (.branch loopLabel)) := by
  have hlast : Expr.evalAll oracle fuel [.branchOn loopLabel s .nonzero]
      = (anyZero (s :: ss) >>= fun left =>
          if left then pure () else .exit (.branch loopLabel)) := by
    rw [anyZero_eq_isZero hone, Expr.evalAll, eval_branchOn_nonzero, bind_assoc]
    exact Eval.bind_bool_congr rfl rfl
  rw [roundCode, Expr.evalAll_append, Expr.evalAll_append, evalAll_chainCode,
    Operation.evalAll_map_toExpr, hlast, pass, hconditions]
  simp only [bind_assoc]
  exact Eval.bind_bool_congr rfl rfl

/-- The loop in the code repeats rounds. The induction is over the
rounds. The branch at the end of the body comes back to the label of the
loop, and a branch to the exit leaves the loop with the block around it. -/
theorem againOnBranch_roundCode (fuel : Nat) (body : List Nat) {latch : Nat} {s : Slot}
    {ss : List Slot} (hconditions : g.conditions latch = s :: ss) (hone : ∀ s' ∈ ss, s' = s)
    (rounds : Nat) :
    Eval.againOnBranch loopLabel (Expr.evalAll oracle fuel (g.roundCode body latch s)) rounds
      = (g.spin oracle body latch rounds >>= leave) := by
  have hround := evalAll_roundCode oracle fuel body hconditions hone
  induction rounds with
  | zero => rfl
  | succ rounds ih =>
    funext st
    rcases hbody : g.passAll oracle body st with ⟨e | left, st'⟩
    · have hst : Expr.evalAll oracle fuel (g.roundCode body latch s) st = (.error e, st') := by
        rw [hround, Eval.bind_apply_error hbody]
      have hne : e ≠ .branch loopLabel := (plain_passAll oracle body).branch hbody loopLabel
      rw [Eval.againOnBranch_of_ne hst fun heq => hne (Except.error.inj heq), spin,
        bind_assoc, Eval.bind_apply_error hbody]
    · have hst := congrFun hround st
      rw [Eval.bind_apply_ok hbody] at hst
      rw [spin, bind_assoc, Eval.bind_apply_ok hbody]
      cases left with
      | true => exact Eval.againOnBranch_of_ne hst (by decide)
      | false =>
        show _ = ((g.pass oracle latch >>= fun left =>
          if left then pure false else g.spin oracle body latch rounds) >>= leave) st'
        rw [bind_assoc]
        rcases hlatch : g.pass oracle latch st' with ⟨e | left, st''⟩
        · have hne : e ≠ .branch loopLabel := (plain_pass oracle latch).branch hlatch loopLabel
          rw [Eval.againOnBranch_of_ne (hst.trans (Eval.bind_apply_error hlatch))
            fun heq => hne (Except.error.inj heq), Eval.bind_apply_error hlatch]
        · rw [Eval.bind_apply_ok hlatch]
          have hst := hst.trans (Eval.bind_apply_ok hlatch)
          cases left with
          | true => exact Eval.againOnBranch_of_ne hst nofun
          | false => exact (Eval.againOnBranch_of_branch hst).trans (congrFun ih st'')

/-- The block around code that branches to the exit ends the branches.
It is left out only if there are none. With it, leaving early and coming
to the end of the code look the same from outside. -/
theorem evalAll_enclosed (fuel : Nat) {exits : Bool} {code : List Expr}
    {x : Eval (List Constant) σ Bool} (hx : Plain x)
    (hcode : Expr.evalAll oracle fuel code = (x >>= leave))
    (hexits : exits = false → ∀ s s', x s ≠ (.ok true, s')) :
    Expr.evalAll oracle fuel (enclosed exits code) = (x >>= fun _ => pure ()) := by
  funext st
  have hst := congrFun hcode st
  cases exits with
  | false =>
    show Expr.evalAll oracle fuel code st = _
    rw [hst]
    rcases hr : x st with ⟨e | left, st'⟩
    · rw [Eval.bind_apply_error hr, Eval.bind_apply_error hr]
    · rw [Eval.bind_apply_ok hr, Eval.bind_apply_ok hr]
      cases left with
      | true => exact absurd hr (hexits rfl st st')
      | false => rfl
  | true =>
    show Expr.evalAll oracle fuel [.block exitLabel code] st = _
    rw [Expr.evalAll_block]
    rcases hr : x st with ⟨e | left, st'⟩
    · have hne : e ≠ .branch exitLabel := hx.branch hr exitLabel
      rw [Eval.bind_apply_error hr, Eval.untilBranch_of_ne (hst.trans (Eval.bind_apply_error hr))
        fun heq => hne (Except.error.inj heq)]
    · have hst := hst.trans (Eval.bind_apply_ok hr)
      rw [Eval.bind_apply_ok hr]
      cases left with
      | true => exact Eval.untilBranch_of_branch hst
      | false => exact Eval.untilBranch_of_ne hst nofun

/-- Blocks without conditions are not left. -/
theorem passAll_ne_true {vs : List Nat} (h : g.branches vs = false)
    (s s' : State (List Constant) σ) : g.passAll oracle vs s ≠ (.ok true, s') := by
  induction vs generalizing s with
  | nil => nofun
  | cons v vs ih =>
    obtain ⟨hv, hvs⟩ := Bool.or_eq_false_iff.mp h
    have hconditions : g.conditions v = [] := by simpa using hv
    rw [passAll, pass, hconditions, bind_assoc]
    exact Eval.bind_ne_ok fun _ s₁ _ => ih hvs s₁

theorem spin_ne_true {body : List Nat} (h : g.branches body = false) (latch rounds : Nat)
    (s s' : State (List Constant) σ) : g.spin oracle body latch rounds s ≠ (.ok true, s') := by
  induction rounds generalizing s with
  | zero => nofun
  | succ rounds ih =>
    rw [spin]
    refine Eval.bind_ne_ok fun left s₁ hleft => ?_
    cases left with
    | true => exact absurd hleft (passAll_ne_true oracle h s s₁)
    | false =>
      refine Eval.bind_ne_ok fun left s₂ _ => ?_
      cases left with
      | true => nofun
      | false => exact ih s₂

/-- The same for the part before the loop: without a conditional edge
the draft needs no block around it, and this is why. -/
theorem lap_ne_true {front body : List Nat} (h : g.branches (front ++ body) = false)
    (latch rounds : Nat) (s s' : State (List Constant) σ) :
    g.lap oracle front body latch rounds s ≠ (.ok true, s') := by
  rw [branches, List.any_append, Bool.or_eq_false_iff] at h
  refine Eval.bind_ne_ok fun left s₁ hleft => ?_
  cases left with
  | true => exact absurd hleft (passAll_ne_true oracle h.1 s s₁)
  | false => exact spin_ne_true oracle h.2 latch rounds s₁ s'

-- ================================================================ walks

/-- Of the edges out of a block the first one that applies is followed.
Where conditions lead to the exit only, this is to test them all and go
there if one is zero. -/
theorem follow_eq {next : Nat} {es : List Edge}
    (h : ∀ e ∈ es, e.trigger.isAlways = false → e.target = g.exit) :
    (follow (some next) es : Eval _ σ Nat)
      = (anyZero (es.filterMap fun e => e.trigger.slot?) >>= fun left =>
          pure (if left then g.exit else next)) := by
  induction es with
  | nil => rfl
  | cons e es ih =>
    obtain ⟨he, hes⟩ := List.forall_mem_cons.mp h
    rw [follow]
    cases htrigger : e.trigger with
    | always =>
      have hskip : (e :: es).filterMap (fun e => e.trigger.slot?)
          = es.filterMap fun e => e.trigger.slot? :=
        List.filterMap_cons_none (by rw [htrigger]; rfl)
      rw [hskip]
      exact ih hes
    | ifZero s =>
      have htake : (e :: es).filterMap (fun e => e.trigger.slot?)
          = s :: es.filterMap fun e => e.trigger.slot? :=
        List.filterMap_cons_some (by rw [htrigger]; rfl)
      have htarget : e.target = g.exit := he (by rw [htrigger]; rfl)
      show (s.isZero >>= fun z => if z then pure e.target else follow (some next) es) = _
      rw [htake, anyZero, bind_assoc, ih hes, htarget]
      exact Eval.bind_bool_congr rfl rfl

theorem plain_follow (otherwise : Option Nat) (es : List Edge) :
    Plain (follow otherwise es : Eval _ σ Nat) := by
  induction es with
  | nil => exact .need otherwise
  | cons e es ih =>
    rw [follow]
    split
    · exact ih
    · exact (Plain.isZero _).bind fun _ => .ite (.pure _) ih

/-- A walk takes no branch, for however many blocks it goes on. -/
theorem plain_walk (bound v : Nat) : Plain (g.walk oracle bound v) := by
  induction bound generalizing v with
  | zero => exact .exit nofun
  | succ bound ih =>
    exact (Plain.operations oracle _).bind fun _ =>
      .ite (.pure ()) ((plain_follow _ _).bind fun next => ih next)

theorem walk_exit (bound : Nat) : g.walk oracle (bound + 1) g.exit = g.finish oracle := by
  rw [walk]
  simp only [if_true]
  exact bind_pure _

/-- A walk passes a block and goes on at the exit or at the next block. -/
theorem Verified.walk_succ (h : g.Verified) {v next : Nat} (hv : v ≠ g.exit)
    (hnext : g.fallthrough? v = some next) (bound : Nat) :
    g.walk oracle (bound + 1) v
      = (g.pass oracle v >>= fun left => g.walk oracle bound (if left then g.exit else next)) := by
  have hedges : ∀ e ∈ g.successors v, e.trigger.isAlways = false → e.target = g.exit :=
    fun e he => h.conditions e (mem_successors.mp he).1
  rw [walk, hnext, follow_eq hedges]
  simp only [if_neg hv, pass, bind_assoc]
  rfl

/-- With no block left to do, the walk runs out of fuel; with one left
it does the exit block. Either way it approximates that. -/
theorem walk_exit_approximates (bound : Nat) :
    Approximates (g.walk oracle bound g.exit) (g.finish oracle) := by
  cases bound with
  | zero => exact .outOfFuel (plain_finish oracle)
  | succ bound =>
    rw [walk_exit]
    exact .refl _

/-- Runs blocks, and then the exit or something else. -/
def passThen (g : Graph) (vs : List Nat) (y : Eval (List Constant) σ Unit) :
    Eval (List Constant) σ Unit := do
  if ← g.passAll oracle vs then g.finish oracle else y

/-- To pass a chain and then go on is to pass its first block and then,
unless that left, to pass the others and go on. -/
theorem passThen_cons (v : Nat) (vs : List Nat) (y : Eval (List Constant) σ Unit) :
    g.passThen oracle (v :: vs) y
      = (g.pass oracle v >>= fun left =>
          if left then g.finish oracle else g.passThen oracle vs y) := by
  rw [passThen, passAll, bind_assoc]
  exact Eval.bind_bool_congr rfl rfl

/-- Passing a chain takes no branch if what comes behind it takes none. -/
theorem plain_passThen (vs : List Nat) {y : Eval (List Constant) σ Unit} (hy : Plain y) :
    Plain (g.passThen oracle vs y) :=
  (plain_passAll oracle vs).bind fun _ => .ite (plain_finish oracle) hy

/-- A walk along blocks does no more than to pass them. -/
theorem Verified.walk_approximates (h : g.Verified) {v w : Nat} {vs : List Nat}
    (hleads : g.Leads v vs w) {y : Eval (List Constant) σ Unit} (hplain : Plain y) {bound : Nat}
    (hy : Approximates (g.walk oracle (bound - vs.length) w) y) :
    Approximates (g.walk oracle bound v) (g.passThen oracle vs y) := by
  induction hleads generalizing bound with
  | nil => exact hy
  | @cons v next w vs inner step rest ih =>
    cases bound with
    | zero => exact .outOfFuel (plain_passThen oracle _ hplain)
    | succ bound =>
      rw [h.walk_succ oracle inner step, passThen_cons]
      refine .bind fun left => ?_
      cases left with
      | true => exact walk_exit_approximates oracle bound
      | false =>
        rw [List.length_cons, Nat.add_sub_add_right] at hy
        exact ih hy

/-- A walk with a bound that is large enough passes all blocks. -/
theorem Verified.approximates_walk (h : g.Verified) {v w : Nat} {vs : List Nat}
    (hleads : g.Leads v vs w) {y : Eval (List Constant) σ Unit} {bound : Nat}
    (hy : Approximates y (g.walk oracle (bound + 1) w)) :
    Approximates (g.passThen oracle vs y) (g.walk oracle (vs.length + (bound + 1)) v) := by
  induction hleads with
  | nil =>
    rw [List.length_nil, Nat.zero_add]
    exact hy
  | @cons v next w vs inner step rest ih =>
    rw [List.length_cons, Nat.add_right_comm, h.walk_succ oracle inner step, passThen_cons]
    refine .bind fun left => ?_
    cases left with
    | true =>
      show Approximates (g.finish oracle) (g.walk oracle (vs.length + (bound + 1)) g.exit)
      rw [← Nat.add_assoc, walk_exit]
      exact .refl _
    | false => exact ih hy

-- =========================================================== the theorem

/-- Rounds and then the exit: one round, and then the exit or the other
rounds. -/
theorem spin_succ (body : List Nat) (latch rounds : Nat) :
    (g.spin oracle body latch (rounds + 1) >>= fun _ => g.finish oracle)
      = g.passThen oracle (body ++ [latch])
          (g.spin oracle body latch rounds >>= fun _ => g.finish oracle) := by
  rw [spin, passThen, passAll_append, bind_assoc, bind_assoc]
  refine Eval.bind_bool_congr rfl ?_
  show (g.pass oracle latch >>= _) >>= _ = ((g.pass oracle latch >>= _) >>= _)
  rw [bind_assoc, bind_assoc]
  exact Eval.bind_bool_congr rfl rfl

/-- A graph and structured code behave alike if each approximates the
other. -/
theorem sameBehaviour_of_approximates {f : Function} (s : State (List Constant) σ)
    (h₁ : ∀ n, ∃ m, Approximates (g.walk oracle n g.entry) (Expr.evalAll oracle m f.body))
    (h₂ : ∀ n, ∃ m, Approximates (Expr.evalAll oracle n f.body) (g.walk oracle m g.entry)) :
    Runs.SameBehaviour (g.run oracle s) (f.runFrom oracle s) :=
  .of_upto (fun n => (h₁ n).imp fun _ h => h.upto s) fun n => (h₂ n).imp fun _ h => h.upto s

/-- The code of a chain to the exit does what a walk does. A walk does
one block at a time and is given as many as there are; the code has no
loop and needs no fuel. -/
theorem Verified.sameBehaviour_straight (h : g.Verified) {vs : List Nat}
    (hc : g.Chain vs g.exit) {f : Function} (hf : g.render = .ok f.body)
    (s : State (List Constant) σ) :
    Runs.SameBehaviour (g.run oracle s) (f.runFrom oracle s) := by
  have hbody : ∀ fuel, Expr.evalAll oracle fuel f.body
      = g.passThen oracle vs (g.finish oracle) := by
    intro fuel
    rw [h.render_straight hc] at hf
    rw [← Except.ok.inj hf, Expr.evalAll_append, Operation.evalAll_map_toExpr,
      evalAll_enclosed oracle fuel (plain_passAll oracle vs) (evalAll_chainCode oracle fuel vs)
        (passAll_ne_true oracle), bind_assoc, passThen]
    exact Eval.bind_bool_congr rfl rfl
  apply sameBehaviour_of_approximates oracle s
  · intro n
    refine ⟨0, ?_⟩
    rw [hbody]
    exact h.walk_approximates oracle hc.leads (plain_finish oracle)
      (walk_exit_approximates oracle _)
  · intro n
    refine ⟨vs.length + (0 + 1), ?_⟩
    rw [hbody]
    refine h.approximates_walk oracle hc.leads ?_
    rw [walk_exit]
    exact .refl _

namespace Cycle

variable {front body : List Nat} {header latch : Nat}

/-- A round leads from the header to the header. -/
theorem leads (hc : g.Cycle front body header latch) :
    g.Leads header (body ++ [latch]) header :=
  hc.body.append (.cons hc.mem.2 hc.step .nil)

/-- Walking around the loop for so many blocks approximates as many
rounds of its code, since each round does at least one block. -/
theorem walk_approximates (hc : g.Cycle front body header latch) (h : g.Verified)
    {bound rounds : Nat} (hbound : bound ≤ rounds) :
    Approximates (g.walk oracle bound header)
      (g.spin oracle body latch rounds >>= fun _ => g.finish oracle) := by
  have hplain : ∀ n, Plain (g.spin oracle body latch n >>= fun _ => g.finish oracle) :=
    fun n => (plain_spin oracle body latch n).bind fun _ => plain_finish oracle
  induction rounds generalizing bound with
  | zero =>
    rw [Nat.le_zero.mp hbound]
    exact .outOfFuel (hplain 0)
  | succ rounds ih =>
    rw [spin_succ]
    refine h.walk_approximates oracle hc.leads (hplain rounds) (ih ?_)
    rw [List.length_append, List.length_singleton]
    omega

/-- The other direction: for every number of rounds there is a number of
blocks that is enough, as a round does the blocks of the body and the
latch. -/
theorem approximates_walk (hc : g.Cycle front body header latch) (h : g.Verified) (rounds : Nat) :
    Approximates (g.spin oracle body latch rounds >>= fun _ => g.finish oracle)
      (g.walk oracle (rounds * (body.length + 1) + 1) header) := by
  induction rounds with
  | zero => exact .outOfFuel (plain_walk oracle _ header)
  | succ rounds ih =>
    have hbound : (rounds + 1) * (body.length + 1) + 1
        = (body ++ [latch]).length + (rounds * (body.length + 1) + 1) := by
      rw [List.length_append, List.length_singleton, Nat.succ_mul]
      omega
    rw [spin_succ, hbound]
    exact h.approximates_walk oracle hc.leads ih

/-- The code of a chain that goes back does what a walk does, if the
latch waits for one slot. The two are compared with bounds of their own,
one counting blocks and the other rounds; each comes as far as the other
when its bound is large enough. -/
theorem sameBehaviour (hc : g.Cycle front body header latch) (h : g.Verified) {s : Slot}
    {ss : List Slot} (hconditions : g.conditions latch = s :: ss) (hone : ∀ s' ∈ ss, s' = s)
    {f : Function} (hf : g.render = .ok f.body) (st : State (List Constant) σ) :
    Runs.SameBehaviour (g.run oracle st) (f.runFrom oracle st) := by
  have hbody : ∀ fuel, Expr.evalAll oracle fuel f.body
      = g.passThen oracle front (g.spin oracle body latch fuel >>= fun _ => g.finish oracle) := by
    intro fuel
    have hcode : Expr.evalAll oracle fuel
        (g.chainCode front ++ [.loop loopLabel (g.roundCode body latch s)])
          = (g.lap oracle front body latch fuel >>= leave) := by
      rw [Expr.evalAll_append, evalAll_chainCode, Expr.evalAll_loop,
        againOnBranch_roundCode oracle fuel body hconditions hone, lap, bind_assoc,
        bind_assoc]
      exact Eval.bind_bool_congr rfl rfl
    rw [hc.render h hconditions] at hf
    rw [← Except.ok.inj hf, Expr.evalAll_append, Operation.evalAll_map_toExpr,
      evalAll_enclosed oracle fuel (plain_lap oracle front body latch fuel) hcode
        fun hnone => lap_ne_true oracle hnone latch fuel,
      lap, bind_assoc, bind_assoc, passThen]
    exact Eval.bind_bool_congr rfl rfl
  apply sameBehaviour_of_approximates oracle st
  · intro n
    refine ⟨n, ?_⟩
    rw [hbody]
    refine h.walk_approximates oracle hc.front ?_ (hc.walk_approximates oracle h (Nat.sub_le _ _))
    exact (plain_spin oracle body latch n).bind fun _ => plain_finish oracle
  · intro n
    refine ⟨front.length + (n * (body.length + 1) + 1), ?_⟩
    rw [hbody]
    exact h.approximates_walk oracle hc.front (hc.approximates_walk oracle h n)

end Cycle

/-- Rendering preserves meaning if the latch waits for one slot. An
accepted graph, in which no block at the end of a loop has conditions on
different slots, is rendered, and its code behaves like a walk from its
entry, whatever calls are answered and whatever the slots and the memory
hold: it ends alike, with the same slots, host, memory, calls and
result, and it goes on forever alike, with the same endless calls. -/
theorem render_preserves_behaviour (h : g.verify = .ok ())
    (hone : ∀ e ∈ g.backEdges, ∀ s ∈ g.conditions e.source, ∀ s' ∈ g.conditions e.source, s' = s) :
    ∃ code, g.render = .ok code ∧ ∀ f : Function, f.body = code → ∀ (σ : Type) (oracle : Oracle σ)
      (s : State (List Constant) σ), Runs.SameBehaviour (g.run oracle s) (f.runFrom oracle s) := by
  have hv := verify_eq_ok.mp h
  obtain ⟨vs, w, hc⟩ := hv.exists_chain
  by_cases hw : w = g.exit
  · subst hw
    refine ⟨_, hv.render_straight hc, fun f hf σ oracle s => ?_⟩
    exact hv.sameBehaviour_straight oracle hc (hf ▸ hv.render_straight hc) s
  · obtain ⟨front, body, latch, hcycle⟩ := hc.exists_cycle hw
    obtain ⟨slot, slots, hconditions⟩ := hcycle.exists_conditions hv
    have hsame : ∀ s' ∈ slots, s' = slot := by
      have hmem := hone ⟨latch, w, .always⟩ (by rw [hcycle.backEdges hv]; exact List.mem_cons_self)
      rw [hconditions] at hmem
      exact fun s' hs' => hmem slot List.mem_cons_self s' (List.mem_cons_of_mem _ hs')
    refine ⟨_, hcycle.render hv hconditions, fun f hf σ oracle s => ?_⟩
    exact hcycle.sameBehaviour oracle hv hconditions hsame
      (hf ▸ hcycle.render hv hconditions) s

/-- A loop of one block that waits for one slot or another to be zero. -/
def twoTests : Graph where
  blocks := [⟨"loop", []⟩, ⟨"done", [.ret (slot 0)]⟩]
  edges := [⟨0, 1, .ifZero (slot 0)⟩, ⟨0, 1, .ifZero (slot 1)⟩, ⟨0, 0, .always⟩]
  entry := 0
  exit := 1
where
  slot (index : Nat) : Slot := { index, type := .i32, origin := .parameter }

/-- The code of `twoTests`, which looks at the first slot only. -/
def twoTestsCode : List Expr :=
  [.loop loopLabel [.branchIf loopLabel (.get 0 .i32) .nonzero], .returnValue (.get 0 .i32)]

/-- The first slot is not zero, and the second is. -/
def twoTestsState : State (List Constant) Unit where
  store := [.i32 1, .i32 0]
  world := { host := (), memory := ∅, calls := [] }

/-- The condition on the latch is needed: `twoTests` is accepted and
rendered, and where a walk ends, its code may go on forever. -/
theorem twoTests_unfaithful :
    twoTests.verify = .ok () ∧ twoTests.render = .ok twoTestsCode
      ∧ ∀ f : Function, f.body = twoTestsCode →
          ¬Runs.SameBehaviour (twoTests.run (.zero Unit) twoTestsState)
            (f.runFrom (.zero Unit) twoTestsState) := by
  refine ⟨by decide, rfl, fun f hf hsame => ?_⟩
  have hround : ∀ fuel, Expr.evalAll (.zero Unit) fuel
      [.branchIf loopLabel (.get 0 .i32) .nonzero] twoTestsState
        = (.error (.branch loopLabel), twoTestsState) := fun _ => rfl
  have hloop : ∀ fuel rounds, Eval.againOnBranch loopLabel (Expr.evalAll (.zero Unit) fuel
      [.branchIf loopLabel (.get 0 .i32) .nonzero]) rounds twoTestsState
        = (.error .outOfFuel, twoTestsState) := by
    intro fuel rounds
    induction rounds with
    | zero => rfl
    | succ rounds ih => rw [Eval.againOnBranch_of_branch (hround fuel), ih]
  have hdiverges : (f.runFrom (.zero Unit) twoTestsState).Diverges := by
    intro fuel
    have hcode : twoTestsCode = [.loop loopLabel [.branchIf loopLabel (.get 0 .i32) .nonzero]]
        ++ [.returnValue (.get 0 .i32)] := rfl
    rw [Function.runFrom_eq_report, Eval.report, hf, hcode, Expr.evalAll_append,
      Expr.evalAll_loop, Eval.bind_apply_error (hloop fuel fuel)]
    rfl
  -- The walk goes from the loop to the exit and returns.
  have hwalk := hsame.diverges.mpr hdiverges 2
  cases hwalk

end CallFlow.Graph
