/-
What a map answers.

A map is a list of bindings, but nothing outside this module has to know: `get?_insert` says what
an insertion changes, and `get?_ofPairs` what a map that was collected from pairs holds.
-/
import CallFlow.Dictionary
import CallFlow.Proofs.Basic

namespace CallFlow.Dictionary

variable {κ α : Type}

/-- An insertion changes the value of its own key, and no other. -/
theorem get?_insert [DecidableEq κ] (d : Dictionary κ α) (key key' : κ) (value : α) :
    (d.insert key value).get? key' = if key' = key then some value else d.get? key' := by
  unfold get? insert
  rw [List.lookup_cons]
  by_cases h : key' = key
  · rw [if_pos h, beq_iff_eq.mpr h]
  · rw [if_neg h, beq_eq_false_iff_ne.mpr h]

/-- To collect pairs is to put each of them in front of those before it. -/
theorem bindings_ofPairs (pairs : List (κ × α)) : (ofPairs pairs).bindings = pairs.reverse := by
  have hfold : ∀ (ps : List (κ × α)) (d : Dictionary κ α),
      (ps.foldl (fun d p => d.insert p.1 p.2) d).bindings = ps.reverse ++ d.bindings := by
    intro ps
    induction ps with
    | nil => exact fun d => rfl
    | cons p ps ih =>
      intro d
      rw [List.foldl_cons, ih, List.reverse_cons, List.append_assoc]
      rfl
  exact (hfold pairs {}).trans (List.append_nil _)

/-- Where the keys of the pairs are distinct it does not matter which of
them counts: the map holds the pairs and nothing else. -/
theorem get?_ofPairs [DecidableEq κ] {pairs : List (κ × α)} (h : (pairs.map Prod.fst).Nodup)
    {key : κ} {value : α} :
    (ofPairs pairs).get? key = some value ↔ (key, value) ∈ pairs := by
  have hkeys : ((ofPairs pairs).bindings.map Prod.fst).Nodup := by
    rw [bindings_ofPairs, List.map_reverse]
    exact List.nodup_reverse.mpr h
  unfold get?
  rw [lookup_eq_some_of_nodup hkeys, bindings_ofPairs, List.mem_reverse]

end CallFlow.Dictionary
