/-
The code that a body becomes.

A body without a guard is the code of its operations in order. A guarded one goes
through the loop graph. The shape of that graph is fixed, so every search in it
comes out the same whatever the operations and the guard are; what is left to
show of verification is that only the last block returns, and the rendered code
is one block around the prologue and one loop (`loopCode`).
-/
import CallFlow.Lowering.Program
import CallFlow.Proofs.Lowering.Statements

namespace CallFlow

-- ====================================================== the loop graph

namespace Graph

variable (inits calls : List Operation) (ret : Operation) (guard : Slot)

/-- The code of a guarded body: the calls repeat as long as the guard is
not zero, which is tested before the first round and after each. -/
def loopCode : List Expr :=
  [.block exitLabel (inits.map Operation.toExpr ++ [.branchOn exitLabel guard .zero]
      ++ [.loop loopLabel (calls.map Operation.toExpr ++ [.branchOn loopLabel guard .nonzero])]),
    ret.toExpr]

/-- The shape of the loop graph passes every check that does not look
into its blocks. -/
theorem shape_sentinelLoop :
    (sentinelLoop inits calls ret guard).endsFault? = none
      ∧ (sentinelLoop inits calls ret guard).edgeFault? = none
      ∧ (sentinelLoop inits calls ret guard).unreachableFault? = none
      ∧ (sentinelLoop inits calls ret guard).stuckFault? = none
      ∧ (sentinelLoop inits calls ret guard).headersFault? = none
      ∧ ((sentinelLoop inits calls ret guard).backEdges.findSome?
          (sentinelLoop inits calls ret guard).backEdgeFault?) = none
      ∧ (sentinelLoop inits calls ret guard).conditionFault? = none :=
  ⟨rfl, rfl, rfl, rfl, rfl, rfl, rfl⟩

variable {inits calls ret}

/-- Operations of which none is a return have no return to count. -/
theorem countP_isRet_eq_zero {ops : List Operation} (h : ∀ op ∈ ops, op.isRet = false) :
    ops.countP Operation.isRet = 0 := by
  rw [List.countP_eq_zero]
  intro op hop
  rw [h op hop]
  nofun

/-- The blocks of the loop graph pass their check if only the last one
returns. There are four blocks, each looked at on its own. -/
theorem blocksFault?_sentinelLoop (hinits : ∀ op ∈ inits, op.isRet = false)
    (hcalls : ∀ op ∈ calls, op.isRet = false) (hret : ret.isRet = true) :
    (sentinelLoop inits calls ret guard).blocksFault? = none := by
  have h₀ : (sentinelLoop inits calls ret guard).blockFault? ⟨"prologue", inits⟩ 0 = none := by
    unfold blockFault?
    simp only [countP_isRet_eq_zero hinits]
    rfl
  have h₁ : (sentinelLoop inits calls ret guard).blockFault? ⟨"loop-entry", []⟩ 1 = none := rfl
  have h₂ : (sentinelLoop inits calls ret guard).blockFault? ⟨"loop-body", calls⟩ 2 = none := by
    unfold blockFault?
    simp only [countP_isRet_eq_zero hcalls]
    rfl
  have h₃ : (sentinelLoop inits calls ret guard).blockFault? ⟨"epilogue", [ret]⟩ 3 = none := by
    have hcount : [ret].countP Operation.isRet = 1 := by
      rw [List.countP_cons_of_pos hret, List.countP_nil]
    have hlast : ([ret].getLast?.any Operation.isRet) = true := hret
    unfold blockFault?
    simp only [hcount, hlast]
    rfl
  have hblocks : (sentinelLoop inits calls ret guard).blocks.zipIdx
      = [(⟨"prologue", inits⟩, 0), (⟨"loop-entry", []⟩, 1), (⟨"loop-body", calls⟩, 2),
        (⟨"epilogue", [ret]⟩, 3)] := rfl
  unfold blocksFault?
  rw [hblocks]
  simp only [List.findSome?_cons, h₀, h₁, h₂, h₃, List.findSome?_nil]

/-- The graph of a loop with a sentinel passes its checks, provided that
the return is in the exit block and nowhere else. -/
theorem verify_sentinelLoop (hinits : ∀ op ∈ inits, op.isRet = false)
    (hcalls : ∀ op ∈ calls, op.isRet = false) (hret : ret.isRet = true) :
    (sentinelLoop inits calls ret guard).verify = .ok () := by
  obtain ⟨hends, hedge, hreach, hstuck, hheaders, hback, hcond⟩ :=
    shape_sentinelLoop inits calls ret guard
  have hblocks := blocksFault?_sentinelLoop guard hinits hcalls hret
  unfold verify fault?
  rw [hends, hedge, hblocks, hreach, hstuck, hheaders, hback, hcond]
  rfl

/-- The loop graph is rendered as one block around the prologue and one
loop. -/
theorem render_sentinelLoop (hinits : ∀ op ∈ inits, op.isRet = false)
    (hcalls : ∀ op ∈ calls, op.isRet = false) (hret : ret.isRet = true) :
    (sentinelLoop inits calls ret guard).render = .ok (loopCode inits calls ret guard) := by
  unfold render
  rw [verify_sentinelLoop guard hinits hcalls hret]
  rfl

end Graph

-- ============================================================ the code

/-- The code of a body. -/
def bodyCode (inits calls : List Operation) (guard : Option Slot) (slot : Slot) : List Expr :=
  match guard with
  | none => (bodyOperations inits calls slot).map Operation.toExpr
  | some g => Graph.loopCode inits calls (.ret slot) g

/-- The graph of a body, if it is guarded. -/
def bodyGraph (inits calls : List Operation) (guard : Option Slot) (slot : Slot) : Option Graph :=
  guard.map (Graph.sentinelLoop inits calls (.ret slot))

theorem Operation.kinds_of_isInit {op : Operation} (h : op.isInit = true) :
    op.isCall = false ∧ op.isRet = false := by
  cases op with
  | init _ _ => exact ⟨rfl, rfl⟩
  | call _ _ _ _ => nomatch h
  | ret _ => nomatch h

theorem Operation.kinds_of_isCall {op : Operation} (h : op.isCall = true) :
    op.isInit = false ∧ op.isRet = false := by
  cases op with
  | init _ _ => nomatch h
  | call _ _ _ _ => exact ⟨rfl, rfl⟩
  | ret _ => nomatch h

theorem filter_eq_nil_of_false {ops : List Operation} {p : Operation → Bool}
    (h : ∀ op ∈ ops, p op = false) : ops.filter p = [] := by
  rw [List.filter_eq_nil_iff]
  intro op hop
  rw [h op hop]
  nofun

/-- Sorting the operations of a body into kinds takes it apart again.
The loop is made out of one list of operations, in which initial values,
calls and the return are found in this way. -/
theorem filter_bodyOperations {inits calls : List Operation} (slot : Slot)
    (hinits : ∀ op ∈ inits, op.isInit = true) (hcalls : ∀ op ∈ calls, op.isCall = true) :
    (bodyOperations inits calls slot).filter Operation.isInit = inits
      ∧ (bodyOperations inits calls slot).filter Operation.isCall = calls
      ∧ (bodyOperations inits calls slot).filter Operation.isRet = [.ret slot] := by
  unfold bodyOperations
  simp only [List.filter_append]
  refine ⟨?_, ?_, ?_⟩
  · rw [List.filter_eq_self.mpr hinits,
      filter_eq_nil_of_false fun op hop => (Operation.kinds_of_isCall (hcalls op hop)).1,
      List.append_nil]
    exact List.append_nil inits
  · rw [List.filter_eq_self.mpr hcalls,
      filter_eq_nil_of_false fun op hop => (Operation.kinds_of_isInit (hinits op hop)).1,
      List.nil_append]
    exact List.append_nil calls
  · rw [filter_eq_nil_of_false fun op hop => (Operation.kinds_of_isInit (hinits op hop)).2,
      filter_eq_nil_of_false fun op hop => (Operation.kinds_of_isCall (hcalls op hop)).2]
    rfl

/-- Initial values, then calls, then one return always become code. -/
theorem outcome_reconstruct {inits calls : List Operation} (guard : Option Slot) (slot : Slot)
    (hinits : ∀ op ∈ inits, op.isInit = true) (hcalls : ∀ op ∈ calls, op.isCall = true) :
    (reconstruct (bodyOperations inits calls slot) guard).outcome
      = .ok (bodyCode inits calls guard slot, bodyGraph inits calls guard slot) := by
  cases guard with
  | none => rfl
  | some g =>
    obtain ⟨hi, hc, hr⟩ := filter_bodyOperations slot hinits hcalls
    have hrender : (Graph.sentinelLoop inits calls (.ret slot) g).render
        = .ok (Graph.loopCode inits calls (.ret slot) g) :=
      Graph.render_sentinelLoop g
        (fun op hop => (Operation.kinds_of_isInit (hinits op hop)).2)
        (fun op hop => (Operation.kinds_of_isCall (hcalls op hop)).2) rfl
    simp only [reconstruct, hi, hc, hr, hrender]
    rfl

-- ======================================================= the function

/-- The function that a declaration with the given parts becomes. -/
def loweredFunction (f : Tree.Function) (inits calls : List Operation) (guard : Option Slot)
    (slot : Slot) : Function where
  name := f.name
  params := f.params.map Tree.Param.type
  locals := f.variableDeclarations.map Declaration.type
  result := f.result
  body := bodyCode inits calls guard slot
  slotNames := f.layout.names
  graph := bodyGraph inits calls guard slot
  kind := .user

/-- A function is lowered exactly when its body comes to parts. All else
that a function has is copied from its declarations. -/
theorem outcome_lowerFunction_eq_ok {functions : FunctionTable} {f : Tree.Function}
    {g : Function} :
    (lowerFunction functions f).outcome = .ok g ↔
      ∃ inits calls guard slot, LoweredParts functions f inits calls guard slot
        ∧ g = loweredFunction f inits calls guard slot := by
  unfold lowerFunction
  simp only [Traced.outcome_bind, Traced.outcome_report, Traced.outcome_pure, bind_eq_ok,
    outcome_lowerBody_eq_ok, Except.ok.injEq]
  constructor
  · rintro ⟨b, ⟨inits, calls, hparts, hops, hsym⟩, ⟨code, graph⟩, hcode, -, -, rfl⟩
    rw [hops, outcome_reconstruct _ _ hparts.inits.isInit (isCall_of_forall₂ hparts.calls)] at hcode
    cases hcode
    refine ⟨inits, calls, b.guard, b.returnSlot, hparts, ?_⟩
    rw [hsym, Tree.Function.parameterTypes_layout hparts.declares,
      Tree.Function.localTypes_layout hparts.declares]
    rfl
  · rintro ⟨inits, calls, guard, slot, hparts, rfl⟩
    refine ⟨⟨bodyOperations inits calls slot, f.layout, slot, guard⟩,
      ⟨inits, calls, hparts, rfl, rfl⟩, _,
      outcome_reconstruct _ _ hparts.inits.isInit (isCall_of_forall₂ hparts.calls), (), trivial, ?_⟩
    rw [Tree.Function.parameterTypes_layout hparts.declares,
      Tree.Function.localTypes_layout hparts.declares]
    rfl

end CallFlow
