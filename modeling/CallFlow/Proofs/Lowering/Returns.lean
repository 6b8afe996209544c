/-
Which lists of operations become code.

A body ends in its only return. A guarded list is sorted into its kinds, so that there has to be
one return in it, but not where it stands; and nothing is asked of a list without a guard.
-/
import CallFlow.Proofs.Lowering.LoopCode

namespace CallFlow

variable {operations : List Operation}

/-- A list that ends in its only return. -/
def Terminated (operations : List Operation) : Prop :=
  operations.countP Operation.isRet = 1 ∧ operations.getLast?.any Operation.isRet = true

instance (operations : List Operation) : Decidable (Terminated operations) :=
  inferInstanceAs (Decidable (_ ∧ _))

-- ======================================================= guarded lists

/-- Operations without a return have no loop: there is nothing for the
exit block. -/
theorem outcome_reconstruct_noReturn (h : operations.filter Operation.isRet = []) (guard : Slot) :
    (reconstruct operations (some guard)).outcome = .error (.irreducible .noReturn) := by
  simp only [reconstruct, h, Traced.outcome_fail]

theorem outcome_reconstruct_secondReturn {ret ret' : Operation} {rets : List Operation}
    (h : operations.filter Operation.isRet = ret :: ret' :: rets) (guard : Slot) :
    (reconstruct operations (some guard)).outcome = .error (.irreducible .secondReturn) := by
  simp only [reconstruct, h, Traced.outcome_fail]

/-- With one return, wherever it stands, the code is that of the sorted
list. Operations of one kind keep their order among themselves. -/
theorem outcome_reconstruct_sorted {ret : Operation}
    (h : operations.filter Operation.isRet = [ret]) (guard : Slot) :
    (reconstruct operations (some guard)).outcome
      = .ok (Graph.loopCode (operations.filter Operation.isInit)
          (operations.filter Operation.isCall) ret guard,
        some (Graph.sentinelLoop (operations.filter Operation.isInit)
          (operations.filter Operation.isCall) ret guard)) := by
  have hret : ret ∈ operations.filter Operation.isRet := h ▸ List.mem_cons_self
  have hrender : (Graph.sentinelLoop (operations.filter Operation.isInit)
      (operations.filter Operation.isCall) ret guard).render
        = .ok (Graph.loopCode (operations.filter Operation.isInit)
          (operations.filter Operation.isCall) ret guard) :=
    Graph.render_sentinelLoop guard
      (fun op hop => (Operation.kinds_of_isInit (List.mem_filter.mp hop).2).2)
      (fun op hop => (Operation.kinds_of_isCall (List.mem_filter.mp hop).2).2)
      (List.mem_filter.mp hret).2
  simp only [reconstruct, h, hrender]
  rfl

-- ============================================================ all lists

/-- A list is refused if it is guarded and does not have one return, and
becomes code otherwise. -/
theorem outcome_reconstruct_cases (operations : List Operation) (guard : Option Slot) :
    ((guard = none ∨ operations.countP Operation.isRet = 1)
        ∧ ∃ code, (reconstruct operations guard).outcome = .ok code)
      ∨ ((guard.isSome = true ∧ operations.countP Operation.isRet ≠ 1)
        ∧ ∃ fault, (reconstruct operations guard).outcome = .error (.irreducible fault)) := by
  cases guard with
  | none => exact .inl ⟨.inl rfl, _, rfl⟩
  | some guard =>
    rw [List.countP_eq_length_filter]
    rcases hrets : operations.filter Operation.isRet with _ | ⟨ret, _ | ⟨ret', rets⟩⟩
    · exact .inr ⟨⟨rfl, Nat.zero_ne_one⟩, _, outcome_reconstruct_noReturn hrets guard⟩
    · exact .inl ⟨.inr rfl, _, outcome_reconstruct_sorted hrets guard⟩
    · have hmany : (ret :: ret' :: rets).length ≠ 1 := by simp
      exact .inr ⟨⟨rfl, hmany⟩, _, outcome_reconstruct_secondReturn hrets guard⟩

/-- A list of operations is refused exactly when it is guarded and does
not have one return, and becomes code otherwise. Initial values, then
calls, then one return become the code of such a body, guarded or not. -/
theorem reconstruct_fails_iff (operations : List Operation) (guard : Option Slot) :
    ((∃ fault, (reconstruct operations guard).outcome = .error (.irreducible fault))
        ↔ guard.isSome = true ∧ operations.countP Operation.isRet ≠ 1)
      ∧ ((∃ code, (reconstruct operations guard).outcome = .ok code)
        ↔ guard = none ∨ operations.countP Operation.isRet = 1)
      ∧ ∀ inits calls slot, (∀ op ∈ inits, op.isInit = true) →
        (∀ op ∈ calls, op.isCall = true) → operations = inits ++ calls ++ [.ret slot] →
        (reconstruct operations guard).outcome
          = .ok (bodyCode inits calls guard slot, bodyGraph inits calls guard slot) := by
  have hbody : ∀ inits calls slot, (∀ op ∈ inits, op.isInit = true) →
      (∀ op ∈ calls, op.isCall = true) → operations = inits ++ calls ++ [.ret slot] →
      (reconstruct operations guard).outcome
        = .ok (bodyCode inits calls guard slot, bodyGraph inits calls guard slot) := by
    intro inits calls slot hinits hcalls heq
    rw [heq]
    exact outcome_reconstruct guard slot hinits hcalls
  rcases outcome_reconstruct_cases operations guard with ⟨hone, code, hok⟩ | ⟨hmany, fault, herror⟩
  · refine ⟨⟨fun h => ?_, fun h => ?_⟩, ⟨fun _ => hone, fun _ => ⟨code, hok⟩⟩, hbody⟩
    · obtain ⟨fault, herror⟩ := h
      rw [hok] at herror
      cases herror
    · rcases hone with rfl | hone
      · cases h.1
      · exact absurd hone h.2
  · refine ⟨⟨fun _ => hmany, fun _ => ⟨fault, herror⟩⟩, ⟨fun h => ?_, fun h => ?_⟩, hbody⟩
    · obtain ⟨code, hok⟩ := h
      rw [herror] at hok
      cases hok
    · rcases h with rfl | hone
      · cases hmany.1
      · exact absurd hone hmany.2

/-- A list without a return and without a guard, and a guarded list that
starts with its return, do not end in their only return and become code. -/
theorem unterminated_reconstructed :
    let x : Slot := { index := 0, type := .i32, origin := .localVariable }
    let k : Slot := { index := 1, type := .i32, origin := .sentinel }
    let start : Operation := .init x (.const (.i32 1))
    (¬Terminated [start]
        ∧ (reconstruct [start] none).outcome = .ok ([start.toExpr], none))
      ∧ ¬Terminated [.ret x, start]
        ∧ (reconstruct [.ret x, start] (some k)).outcome
          = .ok (Graph.loopCode [start] [] (.ret x) k,
            some (Graph.sentinelLoop [start] [] (.ret x) k)) :=
  ⟨⟨by decide, rfl⟩, by decide, rfl⟩

end CallFlow
