/-
Parameters are never assigned to.

Two kinds of statements assign: an initial value to the variable that it stands at, and a call to
its target. Neither says by itself that a slot is not that of a parameter. Where a call assigns,
the origin of the slot is checked, and where a variable gets its initial value, the name is that of
no parameter, as names are declared once. Both come to the same because parameters take the first
slots (`parameter_of_index_lt`).

What follows for a run is the frame property of code that assigns only to slots from a number on:
each read of a parameter gives the argument, in every round and wherever the run stops.
-/
import CallFlow.Proofs.Lowering.LoopForms
import CallFlow.Proofs.Semantics.Watching

namespace CallFlow

-- =========================================================== first slots

namespace Tree.Function

variable {f : Tree.Function} {name : String} {s : Slot}

/-- The first slots are those of the parameters. -/
theorem parameter_of_index_lt (h : f.Declares) (hs : f.layout.lookup? name = some s)
    (hi : s.index < f.params.length) :
    s.origin = .parameter ∧ name ∈ f.params.map fun p => p.id.name := by
  obtain ⟨d, hd, rfl, hslot⟩ := (lookup?_layout h).mp hs
  have hlength : s.index < (f.params.map Param.declaration).length := by
    rwa [List.length_map]
  rw [declarations, List.getElem?_append_left hlength] at hd
  obtain ⟨p, hp, rfl⟩ := List.mem_map.mp (List.mem_of_getElem? hd)
  exact ⟨congrArg Slot.origin hslot, List.mem_map.mpr ⟨p, hp, rfl⟩⟩

/-- A slot that is not a parameter's comes after those of the
parameters. -/
theorem length_params_le_of_origin (h : f.Declares) (hs : f.layout.lookup? name = some s)
    (ho : s.origin ≠ .parameter) : f.params.length ≤ s.index :=
  Nat.le_of_not_lt fun hi => ho (parameter_of_index_lt h hs hi).1

/-- The slot of a variable comes after those of the parameters. -/
theorem length_params_le_of_variable (h : f.Declares) {v : Variable} (hv : v ∈ f.body.vars)
    (hs : f.layout.lookup? v.id.name = some s) : f.params.length ≤ s.index := by
  refine Nat.le_of_not_lt fun hi => ?_
  have hparam := (parameter_of_index_lt h hs hi).2
  have hvar : v.id.name ∈ f.body.vars.map fun v => v.id.name := List.mem_map.mpr ⟨v, hv, rfl⟩
  exact (List.nodup_append.mp h.nodup).2.2 _ hparam _ hvar rfl

end Tree.Function

-- ======================================================= what is assigned

namespace Operation

/-- The slot that an operation assigns to. -/
def assigned? : Operation → Option Slot
  | init slot _ => some slot
  | call target .. => some target
  | ret _ => none

/-- An operation assigns only to a slot from a number on. -/
def WritesFrom (p : Nat) (op : Operation) : Prop :=
  ∀ s, op.assigned? = some s → p ≤ s.index

end Operation

section Parts

variable {functions : FunctionTable} {f : Tree.Function}

/-- An initial value goes to a variable, and variables have their slots
behind the parameters. -/
theorem writesFrom_inits (h : f.Declares) {vs : List Tree.Variable} {ops : List Operation}
    (hops : LoweredInits f.layout vs ops) (hvs : ∀ v ∈ vs, v ∈ f.body.vars) :
    ∀ op ∈ ops, op.WritesFrom f.params.length := by
  induction hops with
  | nil => exact List.forall_mem_nil _
  | skip _ _ ih => exact ih (List.forall_mem_cons.mp hvs).2
  | init _ bound _ _ _ ih =>
    obtain ⟨hv, hrest⟩ := List.forall_mem_cons.mp hvs
    refine List.forall_mem_cons.mpr ⟨fun s hs => ?_, ih hrest⟩
    cases hs
    exact Tree.Function.length_params_le_of_variable h hv bound

/-- A call assigns to a target that is no parameter; this was checked
when the target was resolved. -/
theorem writesFrom_calls (h : f.Declares) {cs : List Tree.Call} {ops : List Operation}
    (hops : List.Forall₂ (LoweredCall functions f.layout) cs ops) :
    ∀ op ∈ ops, op.WritesFrom f.params.length := by
  induction hops with
  | nil => exact List.forall_mem_nil _
  | cons hcall _ ih =>
    refine List.forall_mem_cons.mpr ⟨fun s hs => ?_, ih⟩
    obtain ⟨_, _, bound, writable⟩ := hcall
    cases hs
    exact Tree.Function.length_params_le_of_origin h bound writable

end Parts

-- ======================================================= at every depth

namespace Expr

variable {p : Nat}

theorem writesFrom_nil : WritesFrom p [] :=
  fun _ _ h => absurd h List.not_mem_nil

/-- Code that writes behind the parameters stays so when it is put
together. -/
theorem WritesFrom.append {es es' : List Expr} (h : WritesFrom p es) (h' : WritesFrom p es') :
    WritesFrom p (es ++ es') := by
  intro i v hv
  rcases List.mem_append.mp hv with hv | hv
  · exact h i v hv
  · exact h' i v hv

/-- An expression that does not assign adds nothing. -/
theorem WritesFrom.cons {e : Expr} {es : List Expr} (he : ∀ i v, e ≠ set i v)
    (h : WritesFrom p es) : WritesFrom p (e :: es) := by
  intro i v hv
  rcases List.mem_cons.mp hv with rfl | hv
  · exact absurd rfl (he i v)
  · exact h i v hv

/-- An assignment to a slot from the number on adds nothing. -/
theorem WritesFrom.cons_set {i : Nat} {e : Expr} {es : List Expr} (hi : p ≤ i)
    (h : WritesFrom p es) : WritesFrom p (set i e :: es) := by
  intro j v hv
  rcases List.mem_cons.mp hv with heq | hv
  · cases heq
    exact hi
  · exact h j v hv

end Expr

open CallFlow.Expr (WritesFrom)

theorem Value.writesFrom (p : Nat) (v : Value) : WritesFrom p v.toExpr.walk := by
  cases v with
  | slot s => exact .cons nofun Expr.writesFrom_nil
  | const c => exact .cons nofun Expr.writesFrom_nil

theorem Value.writesFrom_all (p : Nat) (vs : List Value) :
    WritesFrom p (Expr.walkAll (vs.map Value.toExpr)) := by
  induction vs with
  | nil => exact Expr.writesFrom_nil
  | cons v vs ih => exact (v.writesFrom p).append ih

/-- A statement writes to the slot that its operation writes to. -/
theorem Operation.WritesFrom.toExpr {p : Nat} {op : Operation} (h : op.WritesFrom p) :
    Expr.WritesFrom p op.toExpr.walk := by
  cases op with
  | init slot value => exact .cons_set (h slot rfl) (value.writesFrom p)
  | call target function args result =>
    exact .cons_set (h target rfl) (.cons nofun (Value.writesFrom_all p args))
  | ret slot => exact .cons nofun (.cons nofun Expr.writesFrom_nil)

/-- Statements in order write where their operations do. -/
theorem Operation.WritesFrom.toExpr_all {p : Nat} {ops : List Operation}
    (h : ∀ op ∈ ops, op.WritesFrom p) :
    Expr.WritesFrom p (Expr.walkAll (ops.map Operation.toExpr)) := by
  induction ops with
  | nil => exact Expr.writesFrom_nil
  | cons op ops ih =>
    obtain ⟨hop, hops⟩ := List.forall_mem_cons.mp h
    exact hop.toExpr.append (ih hops)

-- A branch, a block and a loop assign nothing themselves.

theorem writesFrom_branchOn (p : Nat) (l : String) (s : Slot) (test : BranchTest) :
    WritesFrom p (Expr.walkAll [.branchOn l s test]) :=
  .append (.cons nofun (.cons nofun Expr.writesFrom_nil)) Expr.writesFrom_nil

theorem writesFrom_block {p : Nat} {body : List Expr} (h : WritesFrom p (Expr.walkAll body))
    (l : String) : WritesFrom p (Expr.block l body).walk :=
  .cons nofun h

theorem writesFrom_loop {p : Nat} {body : List Expr} (h : WritesFrom p (Expr.walkAll body))
    (l : String) : WritesFrom p (Expr.walkAll [.loop l body]) :=
  .append (.cons nofun h) Expr.writesFrom_nil

/-- The code of a body assigns where its operations assign. Tests of the
guard read it and assign nothing. -/
theorem writesFrom_bodyCode {p : Nat} {inits calls : List Operation} (guard : Option Slot)
    (slot : Slot) (hinits : ∀ op ∈ inits, op.WritesFrom p)
    (hcalls : ∀ op ∈ calls, op.WritesFrom p) :
    WritesFrom p (Expr.walkAll (bodyCode inits calls guard slot)) := by
  have hret : (Operation.ret slot).WritesFrom p := by
    intro s hs
    cases hs
  cases guard with
  | none =>
    refine Operation.WritesFrom.toExpr_all fun op hop => ?_
    simp only [bodyOperations, List.mem_append, List.mem_singleton] at hop
    rcases hop with (hop | hop) | rfl
    · exact hinits op hop
    · exact hcalls op hop
    · exact hret
  | some g =>
    have hround := (Operation.WritesFrom.toExpr_all hcalls).append
      (writesFrom_branchOn p Graph.loopLabel g .nonzero)
    have hbefore := (Operation.WritesFrom.toExpr_all hinits).append
      (writesFrom_branchOn p Graph.exitLabel g .zero)
    rw [← Expr.walkAll_append] at hround hbefore
    have hinner := hbefore.append (writesFrom_loop hround Graph.loopLabel)
    rw [← Expr.walkAll_append] at hinner
    exact (writesFrom_block hinner Graph.exitLabel).append
      (hret.toExpr.append Expr.writesFrom_nil)

-- ========================================================== the function

/-- Parameters are read-only. The code of a lowered function has no
assignment to a parameter at any depth, and so in every run with
arguments for its parameters, whatever the calls answer and wherever the
run stops, each read of a parameter gives the argument that was passed. -/
theorem lowerFunction_parameters_readOnly {functions : FunctionTable} {f : Tree.Function}
    {g : Function} (h : (lowerFunction functions f).outcome = .ok g) :
    (∀ i v, Expr.set i v ∈ Expr.walkAll g.body → g.params.length ≤ i)
      ∧ ∀ (σ : Type) (oracle : Oracle σ) (args : List Constant) (w : World σ) (fuel : Nat),
        args.length = g.params.length →
          (g.runWatched oracle args w fuel).1 = g.run oracle args w fuel
            ∧ ∀ r ∈ (g.runWatched oracle args w fuel).2, r.index < g.params.length →
              args[r.index]? = some r.value := by
  obtain ⟨inits, calls, guard, slot, hparts, rfl⟩ := outcome_lowerFunction_eq_ok.mp h
  have hlength : (loweredFunction f inits calls guard slot).params.length = f.params.length :=
    List.length_map _
  have hwrites : WritesFrom (loweredFunction f inits calls guard slot).params.length
      (Expr.walkAll (loweredFunction f inits calls guard slot).body) := by
    rw [hlength]
    exact writesFrom_bodyCode guard slot
      (writesFrom_inits hparts.declares hparts.inits fun _ hv => hv)
      (writesFrom_calls hparts.declares hparts.calls)
  refine ⟨hwrites, fun σ oracle args w fuel hargs => ⟨?_, ?_⟩⟩
  · exact Function.runWatched_report _ oracle args w fuel
  · exact Function.reads_runWatched _ oracle args w fuel (Nat.le_of_eq hargs.symm) hwrites

/-- A function that loops under its parameter. -/
def Tree.Function.underParameter : Tree.Function where
  id := { name := "underParameter" }
  params := [{ id := { name := "n" }, type := .i32 }]
  result := .i32
  body :=
    { vars := [{ id := { name := "y" }, type := .i32, init := some (.reference "n") }]
      loop := some
        { condition := { name := "n" }
          calls := [{ target := { name := "y" }, callee := { name := "next" }
                      args := [.reference "n"] }] } }

/-- Two rounds of `underParameter` read the parameter six times: for the
initial value, for the guard in front of the loop, and in each round for
the call and for the guard. -/
theorem underParameter_reads :
    ∃ g, (lowerFunction .middle .underParameter).outcome = .ok g ∧ 1 = g.params.length
      ∧ (g.runWatched (.zero Unit) [.i32 5] ⟨(), ∅, []⟩ 2).2 = List.replicate 6 ⟨0, .i32 5⟩
      ∧ (∀ i v, Expr.set i v ∈ Expr.walkAll g.body → g.params.length ≤ i)
      ∧ ∀ r ∈ (g.runWatched (.zero Unit) [.i32 5] ⟨(), ∅, []⟩ 2).2, r.index < g.params.length →
        [Constant.i32 5][r.index]? = some r.value := by
  obtain ⟨g, hg, hparams, hreads⟩ : ∃ g, (lowerFunction .middle .underParameter).outcome = .ok g
      ∧ 1 = g.params.length
      ∧ (g.runWatched (.zero Unit) [.i32 5] ⟨(), ∅, []⟩ 2).2 = List.replicate 6 ⟨0, .i32 5⟩ :=
    ⟨_, rfl, rfl, by decide +kernel⟩
  obtain ⟨hwrites, hruns⟩ := lowerFunction_parameters_readOnly hg
  exact ⟨g, hg, hparams, hreads, hwrites, (hruns Unit _ [.i32 5] _ 2 hparams).2⟩

end CallFlow
