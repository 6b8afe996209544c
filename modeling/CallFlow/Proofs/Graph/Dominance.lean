/-
What a search finds, and dominance.

A search pops a block, and if it has not seen it yet, it enters it and pushes what its edges
lead to. The blocks on the stack together with the edges of blocks not seen yet go down by
one in each round (`length_add_unseen_enter`), so the budget of a search is never used up. When
the stack is empty, what was found is closed: the edges of an entered block lead to found blocks
only (`Exhausts.path_mem`). On the other side, nothing is found but along a path whose blocks
were all entered (`spread_induction`).

With a block closed from the start, both sides speak of the paths that avoid it, which is
what dominance asks for. The search for dominance stops as soon as it meets its goal; up to there
it is the search that goes on (`finds_iff_mem_spread`).
-/
import CallFlow.Proofs.Graph.Chain

namespace CallFlow.Graph

variable {g : Graph}

-- ================================================================ paths

/-- A path along edges from one block to another. -/
inductive Path (g : Graph) : Nat → List Edge → Nat → Prop
  | nil {v : Nat} : Path g v [] v
  | cons {u w : Nat} {e : Edge} {es : List Edge} (edge : e ∈ g.edges) (source : e.source = u)
      (rest : Path g e.target es w) : Path g u (e :: es) w

/-- The blocks that a path passes through, the one where it starts
first. -/
def passed (u : Nat) (es : List Edge) : List Nat :=
  u :: es.map Edge.target

/-- A path that is made longer by an edge passes one more block, the
target of the edge. -/
theorem passed_concat (u : Nat) (es : List Edge) (e : Edge) :
    passed u (es ++ [e]) = passed u es ++ [e.target] := by
  simp [passed]

namespace Path

variable {u v w : Nat} {es es' : List Edge} {e : Edge}

theorem append (h : g.Path u es v) (h' : g.Path v es' w) : g.Path u (es ++ es') w := by
  induction h with
  | nil => exact h'
  | cons edge source _ ih => exact .cons edge source (ih h')

/-- A path can be made longer at its end. The search goes along edges in
this direction, while paths are built from their start. -/
theorem concat (h : g.Path u es e.source) (edge : e ∈ g.edges) :
    g.Path u (es ++ [e]) e.target :=
  h.append (.cons edge rfl .nil)

/-- A path passes the block where it ends, also if it has no edges. -/
theorem mem_passed (h : g.Path u es v) : v ∈ passed u es := by
  induction h with
  | nil => exact List.mem_cons_self
  | cons _ _ _ ih => exact List.mem_cons_of_mem _ ih

end Path

theorem mem_targets {v t : Nat} :
    t ∈ g.targets v ↔ ∃ e ∈ g.edges, e.source = v ∧ e.target = t := by
  simp [targets, mem_successors, and_assoc]

-- ========================================================== the search

/-- A search without a budget: in so many rounds its stack gets empty,
and it has found what it has seen until then. -/
inductive Exhausts (next : Nat → List Nat) :
    (rounds : Nat) → (seen stack found : List Nat) → Prop
  | done {seen : List Nat} : Exhausts next 0 seen [] seen
  | skip {rounds v : Nat} {seen stack found : List Nat} (known : v ∈ seen)
      (rest : Exhausts next rounds seen stack found) :
      Exhausts next (rounds + 1) seen (v :: stack) found
  | enter {rounds v : Nat} {seen stack found : List Nat} (fresh : v ∉ seen)
      (rest : Exhausts next rounds (v :: seen) ((next v).reverse ++ stack) found) :
      Exhausts next (rounds + 1) seen (v :: stack) found

/-- A search for a goal without a budget: after so many rounds it meets
the goal or its stack is empty. -/
inductive Seeks (next : Nat → List Nat) (goal : Nat) :
    (rounds : Nat) → (seen stack : List Nat) → (found : Bool) → Prop
  | missed {seen : List Nat} : Seeks next goal 0 seen [] false
  | met {seen stack : List Nat} : Seeks next goal 1 seen (goal :: stack) true
  | skip {rounds v : Nat} {seen stack : List Nat} {found : Bool} (other : v ≠ goal)
      (known : v ∈ seen) (rest : Seeks next goal rounds seen stack found) :
      Seeks next goal (rounds + 1) seen (v :: stack) found
  | enter {rounds v : Nat} {seen stack : List Nat} {found : Bool} (other : v ≠ goal)
      (fresh : v ∉ seen)
      (rest : Seeks next goal rounds (v :: seen) ((next v).reverse ++ stack) found) :
      Seeks next goal (rounds + 1) seen (v :: stack) found

/-- The number of edges that leave blocks not seen yet. -/
def unseen (g : Graph) (seen : List Nat) : Nat :=
  g.edges.countP fun e => !seen.contains e.source

/-- A block that is entered takes its edges out of those that are left.
This is the step of the measure: what is pushed is paid for with edges
that are not left any more. -/
theorem length_targets_add_unseen {v : Nat} {seen : List Nat} (hv : v ∉ seen) :
    (g.targets v).length + g.unseen (v :: seen) = g.unseen seen := by
  rw [targets, List.length_map, successors, ← List.countP_eq_length_filter, unseen, unseen]
  induction g.edges with
  | nil => rfl
  | cons e es ih =>
    rw [List.countP_cons, List.countP_cons, List.countP_cons]
    by_cases he : e.source = v
    · have hself : (e.source == v) = true := beq_iff_eq.mpr he
      have hnow : (!(v :: seen).contains e.source) = false := by simp [he]
      have hbefore : (!seen.contains e.source) = true := by simp [he, hv]
      rw [hself, hnow, hbefore, ← ih]
      simp only [if_true, Bool.false_eq_true, if_false]
      omega
    · have hother : (e.source == v) = false := beq_eq_false_iff_ne.mpr he
      have hsame : (!(v :: seen).contains e.source) = !seen.contains e.source := by simp [he]
      rw [hother, hsame, ← ih]
      simp only [Bool.false_eq_true, if_false]
      omega

/-- To enter a block takes one entry off the stack and moves its edges
there, so that the budget of the rounds after it is one less. -/
theorem length_add_unseen_enter {budget v : Nat} {seen stack : List Nat} (hv : v ∉ seen)
    (h : (v :: stack).length + g.unseen seen ≤ budget + 1) :
    ((g.targets v).reverse ++ stack).length + g.unseen (v :: seen) ≤ budget := by
  have hedges := length_targets_add_unseen (g := g) hv
  rw [List.length_cons] at h
  rw [List.length_append, List.length_reverse]
  omega

/-- The search ends within its budget. -/
theorem spread_exhausts {budget : Nat} {seen stack : List Nat}
    (hbudget : stack.length + g.unseen seen ≤ budget) :
    ∃ rounds ≤ budget,
      Exhausts g.targets rounds seen stack (spread g.targets budget seen stack) := by
  fun_induction spread g.targets budget seen stack with
  | case1 => exact ⟨0, Nat.zero_le _, .done⟩
  | case2 seen stack hne =>
    obtain ⟨v, vs, rfl⟩ := List.exists_cons_of_ne_nil hne
    simp at hbudget
  | case3 budget seen v stack hv ih =>
    rw [List.length_cons] at hbudget
    obtain ⟨rounds, hle, hrest⟩ := ih (by omega)
    exact ⟨rounds + 1, Nat.succ_le_succ hle, .skip hv hrest⟩
  | case4 budget seen v stack hv ih =>
    obtain ⟨rounds, hle, hrest⟩ := ih (length_add_unseen_enter hv hbudget)
    exact ⟨rounds + 1, Nat.succ_le_succ hle, .enter hv hrest⟩

/-- The search for a goal ends within its budget. -/
theorem finds_seeks {goal budget : Nat} {seen stack : List Nat}
    (hbudget : stack.length + g.unseen seen ≤ budget) :
    ∃ rounds ≤ budget,
      Seeks g.targets goal rounds seen stack (finds g.targets goal budget seen stack) := by
  fun_induction finds g.targets goal budget seen stack with
  | case1 => exact ⟨0, Nat.zero_le _, .missed⟩
  | case2 seen stack hne =>
    obtain ⟨v, vs, rfl⟩ := List.exists_cons_of_ne_nil hne
    simp at hbudget
  | case3 budget seen stack => exact ⟨1, Nat.succ_le_succ (Nat.zero_le _), .met⟩
  | case4 budget seen v stack hgoal hv ih =>
    rw [List.length_cons] at hbudget
    obtain ⟨rounds, hle, hrest⟩ := ih (by omega)
    exact ⟨rounds + 1, Nat.succ_le_succ hle, .skip hgoal hv hrest⟩
  | case5 budget seen v stack hgoal hv ih =>
    obtain ⟨rounds, hle, hrest⟩ := ih (length_add_unseen_enter hv hbudget)
    exact ⟨rounds + 1, Nat.succ_le_succ hle, .enter hgoal hv hrest⟩

section

variable {next : Nat → List Nat} {budget : Nat} {seen stack : List Nat}

/-- A search never forgets what it has seen. -/
theorem subset_spread : ∀ v ∈ seen, v ∈ spread next budget seen stack := by
  fun_induction spread next budget seen stack with
  | case1 => exact fun v hv => hv
  | case2 => exact fun v hv => hv
  | case3 budget seen v stack hv ih => exact ih
  | case4 budget seen v stack hv ih => exact fun x hx => ih x (List.mem_cons_of_mem _ hx)

/-- To stop at the goal makes no difference: it is met exactly when the
search that goes on until its stack is empty finds it. -/
theorem finds_iff_mem_spread {goal : Nat} (hgoal : goal ∉ seen) :
    finds next goal budget seen stack = true ↔ goal ∈ spread next budget seen stack := by
  fun_induction finds next goal budget seen stack with
  | case1 => simpa [spread] using hgoal
  | case2 seen stack hne =>
    obtain ⟨v, vs, rfl⟩ := List.exists_cons_of_ne_nil hne
    simpa [spread] using hgoal
  | case3 budget seen stack =>
    rw [spread, if_neg hgoal]
    exact iff_of_true rfl (subset_spread goal List.mem_cons_self)
  | case4 budget seen v stack hother hv ih =>
    rw [spread, if_pos hv]
    exact ih hgoal
  | case5 budget seen v stack hother hv ih =>
    rw [spread, if_neg hv]
    exact ih fun hmem => (List.mem_cons.mp hmem).elim (fun heq => hother heq.symm) hgoal

end

namespace Exhausts

variable {next : Nat → List Nat} {rounds : Nat} {seen stack found : List Nat}

/-- Nothing that was seen is forgotten. -/
theorem seen_subset (h : Exhausts next rounds seen stack found) : ∀ v ∈ seen, v ∈ found := by
  induction h with
  | done => exact fun v hv => hv
  | skip _ _ ih => exact ih
  | enter _ _ ih => exact fun v hv => ih v (List.mem_cons_of_mem _ hv)

/-- Everything on the stack is found. -/
theorem stack_subset (h : Exhausts next rounds seen stack found) : ∀ v ∈ stack, v ∈ found := by
  induction h with
  | done => exact List.forall_mem_nil _
  | skip known rest ih => exact List.forall_mem_cons.mpr ⟨rest.seen_subset _ known, ih⟩
  | enter _ rest ih =>
    exact List.forall_mem_cons.mpr
      ⟨rest.seen_subset _ List.mem_cons_self, (List.forall_mem_append.mp ih).2⟩

/-- What follows a block that was entered is found. -/
theorem next_mem (h : Exhausts next rounds seen stack found) {v : Nat} (hv : v ∈ found)
    (hseen : v ∉ seen) : ∀ t ∈ next v, t ∈ found := by
  induction h with
  | done => exact absurd hv hseen
  | skip _ _ ih => exact ih hv hseen
  | @enter rounds u seen stack found fresh rest ih =>
    by_cases huv : v = u
    · subst huv
      intro t ht
      exact rest.stack_subset t (List.mem_append_left _ (List.mem_reverse.mpr ht))
    · exact ih hv fun hmem => (List.mem_cons.mp hmem).elim huv hseen

/-- A path from a found block that passes no block seen at the start
ends in a found block. -/
theorem path_mem (h : Exhausts g.targets rounds seen stack found) {u w : Nat} {es : List Edge}
    (hpath : g.Path u es w) (hu : u ∈ found) (hes : ∀ v ∈ passed u es, v ∉ seen) : w ∈ found := by
  induction hpath with
  | nil => exact hu
  | cons edge source _ ih =>
    obtain ⟨hseen, hes⟩ := List.forall_mem_cons.mp hes
    exact ih (h.next_mem hu hseen _ (mem_targets.mpr ⟨_, edge, source, rfl⟩)) hes

end Exhausts

-- ============================================================ dominance

/-- With a block closed, a search from the entry finds exactly the ends
of the paths that avoid it, and the block itself. One direction is an
invariant of the search, that all it finds are such ends; the other is
that a search which has stopped leaves no edge open. -/
theorem mem_spread_iff {d budget rounds : Nat}
    (h : Exhausts g.targets rounds [d] [g.entry] (spread g.targets budget [d] [g.entry]))
    {v : Nat} (hv : v ≠ d) :
    v ∈ spread g.targets budget [d] [g.entry]
      ↔ ∃ es, g.Path g.entry es v ∧ d ∉ passed g.entry es := by
  constructor
  · intro hfound
    -- The closed block may be met but is never entered, so it hands nothing on.
    have havoid : ∀ x ∈ spread g.targets budget [d] [g.entry], x ∈ [d] ∨
        (x = d ∨ ∃ es, g.Path g.entry es x ∧ d ∉ passed g.entry es) := by
      refine spread_induction ?_ ?_
      · intro x hx hP t ht
        obtain ⟨es, hpath, hd⟩ := hP.resolve_left fun heq => hx (List.mem_singleton.mpr heq)
        obtain ⟨e, edge, rfl, rfl⟩ := mem_targets.mp ht
        by_cases htd : e.target = d
        · exact .inl htd
        · refine .inr ⟨es ++ [e], hpath.concat edge, ?_⟩
          rw [passed_concat, List.mem_append, List.mem_singleton]
          exact fun hmem => hmem.elim hd fun heq => htd heq.symm
      · refine List.forall_mem_singleton.mpr ?_
        by_cases hd : g.entry = d
        · exact .inl hd
        · refine .inr ⟨[], .nil, fun hmem => hd ?_⟩
          exact (List.mem_singleton.mp hmem).symm
    rcases havoid v hfound with hmem | heq | hpath
    · exact absurd (List.mem_singleton.mp hmem) hv
    · exact absurd heq hv
    · exact hpath
  · intro hpath
    obtain ⟨es, hpath, hd⟩ := hpath
    refine h.path_mem hpath (h.stack_subset _ List.mem_cons_self) fun x hx hmem => hd ?_
    rwa [List.mem_singleton.mp hmem] at hx

/-- Dominance is exact. Whatever the edges are, the search for it ends
after at most one round more than there are edges, and so it does if it
goes on behind its goal. A block dominates another exactly when every
path from the entry to the other passes through it. -/
theorem dominates_iff_forall_path (g : Graph) (d v : Nat) :
    (∃ rounds ≤ g.edges.length + 1,
        Seeks g.targets v rounds [d] [g.entry] (finds g.targets v g.budget [d] [g.entry]))
      ∧ (∃ rounds ≤ g.edges.length + 1,
        Exhausts g.targets rounds [d] [g.entry] (spread g.targets g.budget [d] [g.entry]))
      ∧ (g.dominates d v = true ↔ ∀ es, g.Path g.entry es v → d ∈ passed g.entry es) := by
  have hbudget : [g.entry].length + g.unseen [d] ≤ g.budget := by
    have hle : g.unseen [d] ≤ g.edges.length := List.countP_le_length
    rw [List.length_singleton, budget]
    omega
  obtain ⟨rounds, hrounds, hsearch⟩ := spread_exhausts hbudget
  refine ⟨finds_seeks hbudget, ⟨rounds, hrounds, hsearch⟩, ?_⟩
  by_cases hv : v = d
  · subst hv
    refine ⟨fun _ es hpath => hpath.mem_passed, fun _ => ?_⟩
    rw [dominates, beq_self_eq_true, Bool.true_or]
  · have hne : (d == v) = false := by simpa using fun heq => hv heq.symm
    rw [dominates, hne, Bool.false_or, Bool.not_eq_true', ← Bool.not_eq_true,
      finds_iff_mem_spread fun hmem => hv (List.mem_singleton.mp hmem), mem_spread_iff hsearch hv]
    simp

end CallFlow.Graph
