/-
The shape of a verified graph.

The conditions that verification asks for look at blocks and edges one by one. Together
they leave one shape only: a condition leads to the exit, so every other block is reached
along edges without one, and since each block has just one such edge, the blocks form a
chain from the entry. The chain ends at the exit, or it goes back to a block of its own,
and then its last edge is the one edge that closes a loop.
-/
import CallFlow.Graph.Verify
import CallFlow.Proofs.Basic
import Mathlib.Data.List.Perm.Subperm

namespace CallFlow.Graph

variable {g : Graph}

-- ========================================================= verification

/-- What verification asks for. -/
structure Verified (g : Graph) : Prop where
  entry : g.entry < g.blocks.length
  exit : g.exit < g.blocks.length
  edges : ∀ e ∈ g.edges, e.source < g.blocks.length ∧ e.target < g.blocks.length
  returns : (g.operations g.exit).countP Operation.isRet = 1
  ret : (g.operations g.exit).getLast?.any Operation.isRet = true
  last : g.successors g.exit = []
  quiet : ∀ v < g.blocks.length, v ≠ g.exit → (g.operations v).countP Operation.isRet = 0
  always : ∀ v < g.blocks.length, v ≠ g.exit →
    (g.successors v).countP (fun e => e.trigger.isAlways) = 1
  reachable : ∀ v < g.blocks.length, v ∈ g.reachable
  reachingExit : ∀ v < g.blocks.length, v ∈ g.reachingExit
  headers : (g.backEdges.map Edge.target).eraseDups.length ≤ 1
  back : ∀ e ∈ g.backEdges, e.trigger.isAlways = true ∧ g.dominates e.target e.source = true
    ∧ ∃ s ∈ g.successors e.source, s.target = g.exit ∧ s.trigger.isAlways = false
  conditions : ∀ e ∈ g.edges, e.trigger.isAlways = false → e.target = g.exit

theorem ite_some_eq_none {α : Type} {p : Prop} [Decidable p] {a : α} {x : Option α} :
    (if p then some a else x) = none ↔ ¬p ∧ x = none := by
  by_cases hp : p
  · rw [if_pos hp]
    exact ⟨nofun, fun h => absurd hp h.1⟩
  · rw [if_neg hp]
    exact ⟨fun h => ⟨hp, h⟩, And.right⟩

theorem ite_none_eq_none {α : Type} {p : Prop} [Decidable p] {a : α} :
    (if p then none else some a) = none ↔ p := by
  by_cases hp : p
  · rw [if_pos hp]
    exact ⟨fun _ => hp, fun _ => rfl⟩
  · rw [if_neg hp]
    exact ⟨nofun, fun h => absurd h hp⟩

/-- A block is there if its number is below the number of blocks. -/
theorem hasBlock_eq_true {v : Nat} : g.hasBlock v = true ↔ v < g.blocks.length :=
  decide_eq_true_iff

/-- The check of the edges finds nothing exactly when both ends of every
edge are blocks. -/
theorem edgeFault?_eq_none :
    g.edgeFault? = none ↔
      ∀ e ∈ g.edges, e.source < g.blocks.length ∧ e.target < g.blocks.length := by
  simp only [edgeFault?, List.findSome?_eq_none_iff, ite_none_eq_none, Bool.and_eq_true,
    hasBlock_eq_true]

/-- The check of one block finds nothing exactly when the exit block
ends with its only return and is left by no edge, and any other block
has no return and one edge that is always taken. -/
theorem blockFault?_eq_none {b : Block} {v : Nat} :
    g.blockFault? b v = none ↔
      (v = g.exit → b.operations.countP Operation.isRet = 1
        ∧ b.operations.getLast?.any Operation.isRet = true ∧ g.successors v = [])
      ∧ (v ≠ g.exit → b.operations.countP Operation.isRet = 0
        ∧ (g.successors v).countP (fun e => e.trigger.isAlways) = 1) := by
  unfold blockFault?
  by_cases hv : v = g.exit
  · rw [if_pos hv, ite_some_eq_none, ite_some_eq_none]
    simp [hv, and_assoc]
  · rw [if_neg hv, ite_some_eq_none, ite_some_eq_none]
    simp [hv]

/-- What the check of one block says, of all blocks: the faults of a
list are looked for in order, so none is found only if none is there. -/
theorem blocksFault?_eq_none :
    g.blocksFault? = none ↔ ∀ v < g.blocks.length,
      (v = g.exit → (g.operations v).countP Operation.isRet = 1
        ∧ (g.operations v).getLast?.any Operation.isRet = true ∧ g.successors v = [])
      ∧ (v ≠ g.exit → (g.operations v).countP Operation.isRet = 0
        ∧ (g.successors v).countP (fun e => e.trigger.isAlways) = 1) := by
  rw [blocksFault?, List.findSome?_eq_none_iff]
  constructor
  · intro h v hv
    have hb : g.blocks[v]? = some g.blocks[v] := List.getElem?_eq_getElem hv
    rw [operations, hb]
    exact blockFault?_eq_none.mp (h (g.blocks[v], v) (List.mem_zipIdx_iff_getElem?.mpr hb))
  · intro h p hp
    have hb : g.blocks[p.2]? = some p.1 := List.mem_zipIdx_iff_getElem?.mp hp
    have hv := h p.2 (List.getElem?_eq_some_iff.mp hb).1
    rw [operations, hb] at hv
    exact blockFault?_eq_none.mpr hv

/-- Each number of a block passes a test that looks it up. -/
theorem findSome?_range_eq_none {found : List Nat} {fault : Nat → GraphFault} {n : Nat} :
    ((List.range n).findSome? fun v => if found.contains v then none else some (fault v)) = none
      ↔ ∀ v < n, v ∈ found := by
  simp only [List.findSome?_eq_none_iff, List.mem_range, ite_none_eq_none, List.contains_iff_mem]

/-- There is at most one loop header: the back edges have at most one
target between them. -/
theorem headersFault?_eq_none :
    g.headersFault? = none ↔ (g.backEdges.map Edge.target).eraseDups.length ≤ 1 := by
  simp only [headersFault?, ite_some_eq_none, and_true, Nat.not_lt]

/-- A back edge is always taken, goes to a block that dominates its
source, and starts where a conditional edge to the exit starts too. -/
theorem backEdgeFault?_eq_none {e : Edge} :
    g.backEdgeFault? e = none ↔
      e.trigger.isAlways = true ∧ g.dominates e.target e.source = true
        ∧ ∃ s ∈ g.successors e.source, s.target = g.exit ∧ s.trigger.isAlways = false := by
  rw [backEdgeFault?, ite_some_eq_none, ite_some_eq_none, ite_none_eq_none, List.any_eq_true]
  simp

/-- Conditional edges go to the exit only, so that a condition can do
nothing but leave. -/
theorem conditionFault?_eq_none :
    g.conditionFault? = none ↔
      ∀ e ∈ g.edges, e.trigger.isAlways = false → e.target = g.exit := by
  simp [conditionFault?, List.findSome?_eq_none_iff]

/-- Verification accepts exactly the graphs that satisfy its conditions.
The later proofs start from these conditions and never look at the
checks again. -/
theorem verify_eq_ok : g.verify = .ok () ↔ g.Verified := by
  have hfault : g.verify = .ok () ↔ g.fault? = none := by
    unfold verify
    cases g.fault? with
    | none => exact ⟨fun _ => rfl, fun _ => rfl⟩
    | some fault => exact ⟨nofun, nofun⟩
  rw [hfault, fault?]
  simp only [Option.orElse_eq_orElse, Option.orElse_eq_or, Option.or_eq_none_iff]
  rw [endsFault?, ite_none_eq_none, Bool.and_eq_true, hasBlock_eq_true, hasBlock_eq_true,
    edgeFault?_eq_none, blocksFault?_eq_none, unreachableFault?, findSome?_range_eq_none,
    stuckFault?, findSome?_range_eq_none, headersFault?_eq_none, List.findSome?_eq_none_iff,
    conditionFault?_eq_none]
  constructor
  · rintro ⟨⟨hentry, hexit⟩, hedges, hblocks, hreachable, hreaching, hheaders, hback, hconditions⟩
    obtain ⟨hreturns, hret, hlast⟩ := (hblocks g.exit hexit).1 rfl
    exact ⟨hentry, hexit, hedges, hreturns, hret, hlast,
      fun v hv hne => ((hblocks v hv).2 hne).1, fun v hv hne => ((hblocks v hv).2 hne).2,
      hreachable, hreaching, hheaders, fun e he => backEdgeFault?_eq_none.mp (hback e he),
      hconditions⟩
  · intro h
    refine ⟨⟨h.entry, h.exit⟩, h.edges, fun v hv => ⟨?_, fun hne => ⟨h.quiet v hv hne,
      h.always v hv hne⟩⟩, h.reachable, h.reachingExit, h.headers,
      fun e he => backEdgeFault?_eq_none.mpr (h.back e he), h.conditions⟩
    rintro rfl
    exact ⟨h.returns, h.ret, h.last⟩

-- ================================================================ edges

/-- The edges out of a block are those of the graph that start there. -/
theorem mem_successors {v : Nat} {e : Edge} :
    e ∈ g.successors v ↔ e ∈ g.edges ∧ e.source = v := by
  rw [successors, List.mem_filter, beq_iff_eq]

/-- The edges of a block: one without a condition, and others that lead
to the exit. Which of them comes first in the list is not fixed. -/
theorem Verified.exists_successors (h : g.Verified) {v : Nat} (hv : v < g.blocks.length)
    (hne : v ≠ g.exit) :
    ∃ next before after, g.successors v = before ++ ⟨v, next, .always⟩ :: after
      ∧ g.fallthrough? v = some next ∧ next < g.blocks.length
      ∧ ∀ e ∈ before ++ after, e.trigger.isAlways = false ∧ e.target = g.exit := by
  have hone := h.always v hv hne
  rw [List.countP_eq_length_filter, List.length_eq_one_iff] at hone
  obtain ⟨a, ha⟩ := hone
  obtain ⟨before, after, hsuccessors, hbefore, halways, hafter⟩ := List.filter_eq_cons_iff.mp ha
  have hmem : ∀ e ∈ before ++ a :: after, e ∈ g.edges ∧ e.source = v := by
    intro e he
    exact mem_successors.mp (hsuccessors ▸ he)
  obtain ⟨hedge, hsource⟩ := hmem a (List.mem_append_right _ List.mem_cons_self)
  obtain ⟨source, next, trigger⟩ := a
  obtain rfl : source = v := hsource
  obtain rfl : trigger = .always := by
    cases trigger with
    | always => rfl
    | ifZero s => cases halways
  have hconditional : ∀ e ∈ before ++ after, e.trigger.isAlways = false := by
    rw [List.forall_mem_append]
    exact ⟨fun e he => Bool.eq_false_iff.mpr (hbefore e he),
      fun e he => Bool.eq_false_iff.mpr (List.filter_eq_nil_iff.mp hafter e he)⟩
  refine ⟨next, before, after, hsuccessors, ?_, (h.edges _ hedge).2, ?_⟩
  · have hfind : before.find? (fun e => e.trigger.isAlways) = none :=
      List.find?_eq_none.mpr hbefore
    rw [fallthrough?, hsuccessors, List.find?_append, hfind]
    rfl
  · intro e he
    refine ⟨hconditional e he, h.conditions e ?_ (hconditional e he)⟩
    have hsub : e ∈ before ++ ⟨source, next, .always⟩ :: after := by
      rcases List.mem_append.mp he with he | he
      · exact List.mem_append_left _ he
      · exact List.mem_append_right _ (List.mem_cons_of_mem _ he)
    exact (hmem e hsub).1

/-- From a block one comes to the exit or to the block after it. -/
theorem Verified.target_cases (h : g.Verified) {v t : Nat} (hv : v < g.blocks.length)
    (ht : t ∈ g.targets v) : t = g.exit ∨ g.fallthrough? v = some t := by
  obtain ⟨e, he, rfl⟩ := List.mem_map.mp ht
  by_cases hne : v = g.exit
  · rw [hne, h.last] at he
    cases he
  · obtain ⟨next, before, after, hsuccessors, hnext, -, hexit⟩ := h.exists_successors hv hne
    rw [hsuccessors] at he
    rcases List.mem_append.mp he with he | he
    · exact .inl (hexit e (List.mem_append_left _ he)).2
    · rcases List.mem_cons.mp he with rfl | he
      · exact .inr hnext
      · exact .inl (hexit e (List.mem_append_right _ he)).2

-- ============================================================ the chain

/-- Without conditions one comes from the first block through those of a
list to the last, and not through the exit. -/
inductive Leads (g : Graph) : Nat → List Nat → Nat → Prop
  | nil {v : Nat} : Leads g v [] v
  | cons {v next w : Nat} {vs : List Nat} (inner : v ≠ g.exit) (step : g.fallthrough? v = some next)
      (rest : Leads g next vs w) : Leads g v (v :: vs) w

namespace Leads

variable {u v w : Nat} {vs ws : List Nat}

theorem append (h : g.Leads u vs v) (h' : g.Leads v ws w) : g.Leads u (vs ++ ws) w := by
  induction h with
  | nil => exact h'
  | cons inner step _ ih => exact .cons inner step (ih h')

/-- A stretch of a chain can be cut anywhere: what is before the cut
leads there, and what is behind it leads on. -/
theorem split (h : g.Leads u (vs ++ ws) w) : ∃ v, g.Leads u vs v ∧ g.Leads v ws w := by
  induction vs generalizing u with
  | nil => exact ⟨u, .nil, h⟩
  | cons x vs ih =>
    cases h with
    | cons inner step rest =>
      obtain ⟨v, hvs, hws⟩ := ih rest
      exact ⟨v, .cons inner step hvs, hws⟩

/-- No block that a chain leads through is the exit, because the exit is
left by no edge. -/
theorem ne_exit (h : g.Leads u vs w) : ∀ v ∈ vs, v ≠ g.exit := by
  induction h with
  | nil => exact List.forall_mem_nil _
  | cons inner _ _ ih => exact List.forall_mem_cons.mpr ⟨inner, ih⟩

/-- What comes after a block of the list is in the list as well or comes
last. -/
theorem next_mem (h : g.Leads u vs w) {next : Nat} (hv : v ∈ vs)
    (hnext : g.fallthrough? v = some next) : next ∈ vs ∨ next = w := by
  induction h with
  | nil => cases hv
  | @cons v' next' w vs inner step rest ih =>
    rcases List.mem_cons.mp hv with rfl | hv
    · rw [step] at hnext
      cases hnext
      cases rest with
      | nil => exact .inr rfl
      | cons => exact .inl (List.mem_cons_of_mem _ List.mem_cons_self)
    · exact (ih hv).imp (List.mem_cons_of_mem _) id

end Leads

/-- The blocks of a graph as a chain: each block but the exit is in it
once, and it ends at the exit or goes back to one of its own blocks. -/
structure Chain (g : Graph) (vs : List Nat) (w : Nat) : Prop where
  leads : g.Leads g.entry vs w
  nodup : vs.Nodup
  mem_iff : ∀ v, v ∈ vs ↔ v < g.blocks.length ∧ v ≠ g.exit
  ends : w = g.exit ∨ w ∈ vs

/-- What a search finds was seen at its start, or it has every property
that the blocks on the stack have and that each step from a block not
seen at the start keeps. -/
theorem spread_induction {next : Nat → List Nat} {P : Nat → Prop} {budget : Nat}
    {seen stack : List Nat} (hnext : ∀ v, v ∉ seen → P v → ∀ t ∈ next v, P t)
    (hstack : ∀ v ∈ stack, P v) : ∀ v ∈ spread next budget seen stack, v ∈ seen ∨ P v := by
  fun_induction spread next budget seen stack with
  | case1 => exact fun v hv => .inl hv
  | case2 => exact fun v hv => .inl hv
  | case3 budget seen v stack hv ih => exact ih hnext (List.forall_mem_cons.mp hstack).2
  | case4 budget seen v stack hv ih =>
    obtain ⟨hPv, hstack⟩ := List.forall_mem_cons.mp hstack
    have hnext' : ∀ x, x ∉ v :: seen → P x → ∀ t ∈ next x, P t :=
      fun x hx => hnext x fun hmem => hx (List.mem_cons_of_mem _ hmem)
    have hstack' : ∀ x ∈ (next v).reverse ++ stack, P x :=
      List.forall_mem_append.mpr ⟨fun x hx => hnext v hv hPv x (List.mem_reverse.mp hx), hstack⟩
    intro x hx
    rcases ih hnext' hstack' x hx with hmem | hP
    · rcases List.mem_cons.mp hmem with rfl | hmem
      · exact .inr hPv
      · exact .inl hmem
    · exact .inr hP

/-- Different numbers below `n` are at most `n` many. This bounds the
length of a chain, whose blocks are all different. -/
theorem length_le_of_forall_lt {vs : List Nat} (hnodup : vs.Nodup) {n : Nat}
    (h : ∀ v ∈ vs, v < n) : vs.length ≤ n := by
  have hsub : vs ⊆ List.range n := fun v hv => List.mem_range.mpr (h v hv)
  have hle := (hnodup.subperm hsub).length_le
  rwa [List.length_range] at hle

/-- A way along the blocks goes on to the exit or until it meets itself. -/
theorem Verified.exists_leads (h : g.Verified) {rounds : Nat} {u v : Nat} {vs : List Nat}
    (hleads : g.Leads u vs v) (hnodup : vs.Nodup) (hvs : ∀ x ∈ vs, x < g.blocks.length)
    (hv : v < g.blocks.length) (hrounds : g.blocks.length < vs.length + rounds) :
    ∃ vs' w, g.Leads u vs' w ∧ vs'.Nodup ∧ (∀ x ∈ vs', x < g.blocks.length)
      ∧ (w = g.exit ∨ w ∈ vs') := by
  induction rounds generalizing v vs with
  | zero => exact absurd (length_le_of_forall_lt hnodup hvs) (Nat.not_le.mpr hrounds)
  | succ rounds ih =>
    by_cases hends : v = g.exit ∨ v ∈ vs
    · exact ⟨vs, v, hleads, hnodup, hvs, hends⟩
    · obtain ⟨hexit, hfresh⟩ := not_or.mp hends
      obtain ⟨next, -, -, -, hnext, hlt, -⟩ := h.exists_successors hv hexit
      refine ih (hleads.append (.cons hexit hnext .nil)) ?_ ?_ hlt ?_
      · exact List.concat_eq_append ▸ hnodup.concat hfresh
      · exact List.forall_mem_append.mpr ⟨hvs, List.forall_mem_singleton.mpr hv⟩
      · rw [List.length_append, List.length_singleton]
        omega

/-- The blocks of a verified graph form a chain. Following the
unconditional edges from the entry, each block is new until the exit or
an earlier block is reached, and as there are finitely many blocks one
of the two happens. -/
theorem Verified.exists_chain (h : g.Verified) : ∃ vs w, g.Chain vs w := by
  have hrounds : g.blocks.length < ([] : List Nat).length + (g.blocks.length + 1) := by
    rw [List.length_nil]
    omega
  obtain ⟨vs, w, hleads, hnodup, hlt, hends⟩ := h.exists_leads (u := g.entry) .nil .nil
    (List.forall_mem_nil _) h.entry hrounds
  refine ⟨vs, w, hleads, hnodup, fun v => ⟨fun hv => ⟨hlt v hv, hleads.ne_exit v hv⟩, ?_⟩, hends⟩
  rintro ⟨hv, hne⟩
  -- Nothing but the chain and the exit is found from the entry.
  have hclosed : ∀ x ∈ g.reachable, x ∈ [] ∨ (x = g.exit ∨ x ∈ vs) := by
    refine spread_induction ?_ (List.forall_mem_singleton.mpr ?_)
    · intro x _ hx t ht
      rcases hx with rfl | hx
      · rw [targets, h.last] at ht
        cases ht
      · rcases h.target_cases (hlt x hx) ht with rfl | hnext
        · exact .inl rfl
        · rcases hleads.next_mem hx hnext with hmem | rfl
          · exact .inr hmem
          · exact hends
    · cases hleads with
      | nil => exact hends
      | cons => exact .inr List.mem_cons_self
  exact ((hclosed v (h.reachable v hv)).resolve_left List.not_mem_nil).resolve_left hne

-- =========================================================== back edges

/-- What the depth-first search does with an edge. -/
def visit (g : Graph) (budget v : Nat) (path : List Nat) (found : List Nat × List Edge) (e : Edge) :
    List Nat × List Edge :=
  if e.target ∈ v :: path then (found.1, found.2 ++ [e])
  else if e.target ∈ found.1 then found
  else
    ((depthFirst g budget e.target (v :: path) found.1).1,
      found.2 ++ (depthFirst g budget e.target (v :: path) found.1).2)

/-- A search with budget left enters its block and visits the targets of
its edges in order. -/
theorem depthFirst_succ (budget v : Nat) (path visited : List Nat) :
    depthFirst g (budget + 1) v path visited
      = (g.successors v).foldl (g.visit budget v path) (v :: visited, []) := by
  rw [depthFirst]
  rfl

/-- Nothing is found from the exit. -/
theorem Verified.depthFirst_exit (h : g.Verified) (budget : Nat) (path visited : List Nat) :
    (depthFirst g budget g.exit path visited).2 = []
      ∧ ∀ x ∈ (depthFirst g budget g.exit path visited).1, x ∈ visited ∨ x = g.exit := by
  cases budget with
  | zero => exact ⟨rfl, fun x hx => .inl hx⟩
  | succ budget =>
    rw [depthFirst_succ, h.last]
    exact ⟨rfl, fun x hx => (List.mem_cons.mp hx).symm⟩

/-- Edges to the exit close no loop. The exit has no edges, so that a
visit to it only marks it. -/
theorem Verified.foldl_visit_exit (h : g.Verified) (budget : Nat) {v : Nat} {path : List Nat}
    (hexit : g.exit ∉ v :: path) {es : List Edge} (hes : ∀ e ∈ es, e.target = g.exit)
    (found : List Nat × List Edge) :
    (es.foldl (g.visit budget v path) found).2 = found.2
      ∧ ∀ x ∈ (es.foldl (g.visit budget v path) found).1, x ∈ found.1 ∨ x = g.exit := by
  induction es generalizing found with
  | nil => exact ⟨rfl, fun x hx => .inl hx⟩
  | cons e es ih =>
    obtain ⟨he, hes⟩ := List.forall_mem_cons.mp hes
    have hone : (g.visit budget v path found e).2 = found.2
        ∧ ∀ x ∈ (g.visit budget v path found e).1, x ∈ found.1 ∨ x = g.exit := by
      obtain ⟨hnone, hvisited⟩ := h.depthFirst_exit budget (v :: path) found.1
      rw [visit, he, if_neg hexit]
      split
      · exact ⟨rfl, fun x hx => .inl hx⟩
      · exact ⟨by rw [hnone, List.append_nil], hvisited⟩
    obtain ⟨hsecond, hfirst⟩ := ih hes (g.visit budget v path found e)
    rw [List.foldl_cons]
    refine ⟨hsecond.trans hone.1, fun x hx => ?_⟩
    rcases hfirst x hx with hx | hx
    · exact hone.2 x hx
    · exact .inr hx

/-- The edge that closes a chain, unless it ends at the exit. -/
def closing (g : Graph) (vs : List Nat) (w : Nat) : List Edge :=
  if w = g.exit then [] else vs.getLast?.toList.map fun v => ⟨v, w, .always⟩

/-- What is closed at the end of a chain does not depend on how the
chain starts. -/
theorem closing_cons {v w : Nat} {vs : List Nat} (h : w = g.exit ∨ vs ≠ []) :
    g.closing (v :: vs) w = g.closing vs w := by
  unfold closing
  split
  · rfl
  · next hexit =>
    obtain ⟨x, xs, rfl⟩ := List.exists_cons_of_ne_nil (h.resolve_left hexit)
    rw [List.getLast?_cons_cons]

/-- Along a chain the search finds the edge that closes it, and no
other. The induction is over the chain, with the path as a parameter
that grows. The invariant is that nothing is visited yet but the path
and the exit. -/
theorem Verified.depthFirst_leads (h : g.Verified) {v w : Nat} {vs : List Nat}
    (hleads : g.Leads v vs w) (hnodup : vs.Nodup) (hvs : ∀ x ∈ vs, x < g.blocks.length)
    {path visited : List Nat} (hfresh : ∀ x ∈ vs, x ∉ path) (hv : v ∉ path)
    (hends : w = g.exit ∨ w ∈ path ∨ w ∈ vs) (hexit : g.exit ∉ path)
    (hvisited : ∀ x ∈ visited, x ∈ path ∨ x = g.exit) {budget : Nat}
    (hbudget : vs.length ≤ budget) :
    (depthFirst g budget v path visited).2 = g.closing vs w := by
  induction hleads generalizing path visited budget with
  | @nil v =>
    obtain rfl : v = g.exit := by
      rcases hends with hw | hw | hw
      · exact hw
      · exact absurd hw hv
      · cases hw
    rw [(h.depthFirst_exit budget path visited).1, closing, if_pos rfl]
  | @cons v next w vs inner step rest ih =>
    obtain ⟨budget, rfl⟩ : ∃ b, budget = b + 1 := ⟨budget - 1, by
      rw [List.length_cons] at hbudget
      omega⟩
    obtain ⟨hlt, hvs⟩ := List.forall_mem_cons.mp hvs
    obtain ⟨hself, hnodup⟩ := List.nodup_cons.mp hnodup
    obtain ⟨-, hfresh⟩ := List.forall_mem_cons.mp hfresh
    obtain ⟨next', before, after, hsuccessors, hnext, -, hconditional⟩ :=
      h.exists_successors hlt inner
    obtain rfl : next = next' := Option.some.inj (step.symm.trans hnext)
    have htargets := List.forall_mem_append.mp fun e he => (hconditional e he).2
    have hpath : g.exit ∉ v :: path := fun hmem =>
      (List.mem_cons.mp hmem).elim (fun heq => inner heq.symm) hexit
    rw [depthFirst_succ, hsuccessors, List.foldl_append, List.foldl_cons,
      (h.foldl_visit_exit budget hpath htargets.2 _).1]
    obtain ⟨hnone, hseen⟩ := h.foldl_visit_exit budget hpath htargets.1 (v :: visited, [])
    generalize before.foldl (g.visit budget v path) (v :: visited, []) = found at hnone hseen ⊢
    unfold visit
    by_cases hback : next ∈ v :: path
    · -- The chain goes back, so it ends here: its blocks are all different.
      rw [if_pos hback, hnone]
      cases rest with
      | nil =>
        have hw : next ≠ g.exit := fun heq => hpath (heq ▸ hback)
        rw [closing, if_neg hw]
        rfl
      | cons =>
        rcases List.mem_cons.mp hback with rfl | hmem
        · exact absurd List.mem_cons_self hself
        · exact absurd hmem (hfresh next List.mem_cons_self)
    · rw [if_neg hback]
      by_cases hknown : next ∈ found.1
      · -- Only the exit can have been seen before.
        have hnextExit : next = g.exit := by
          rcases hseen next hknown with hmem | hmem
          · rcases List.mem_cons.mp hmem with rfl | hmem
            · exact absurd List.mem_cons_self hback
            · exact (hvisited next hmem).resolve_left fun hmem =>
                hback (List.mem_cons_of_mem _ hmem)
          · exact hmem
        rw [if_pos hknown, hnone]
        cases rest with
        | nil => rw [closing, if_pos hnextExit]
        | cons inner => exact absurd hnextExit inner
      · rw [if_neg hknown]
        show found.2 ++ (depthFirst g budget next (v :: path) found.1).2 = _
        have hlater : ∀ x ∈ vs, x ∉ v :: path := by
          intro x hx hmem
          rcases List.mem_cons.mp hmem with rfl | hmem
          · exact hself hx
          · exact hfresh x hx hmem
        have hends' : w = g.exit ∨ w ∈ v :: path ∨ w ∈ vs := by
          rcases hends with hw | hw | hw
          · exact .inl hw
          · exact .inr (.inl (List.mem_cons_of_mem _ hw))
          · rcases List.mem_cons.mp hw with rfl | hw
            · exact .inr (.inl List.mem_cons_self)
            · exact .inr (.inr hw)
        have hseen' : ∀ x ∈ found.1, x ∈ v :: path ∨ x = g.exit := by
          intro x hx
          rcases hseen x hx with hmem | hmem
          · rcases List.mem_cons.mp hmem with rfl | hmem
            · exact .inl List.mem_cons_self
            · exact (hvisited x hmem).imp_left (List.mem_cons_of_mem _)
          · exact .inr hmem
        rw [hnone, List.nil_append,
          ih hnodup hvs hlater hback hends' hpath hseen' (Nat.le_of_succ_le_succ hbudget)]
        refine (closing_cons ?_).symm
        cases rest with
        | nil => exact .inl (hends'.resolve_right fun hw => hw.elim hback nofun)
        | cons => exact .inr (List.cons_ne_nil _ _)

/-- All blocks of a chain are blocks of the graph, by the check of the
edges. -/
theorem Chain.lt {vs : List Nat} {w : Nat} (hc : g.Chain vs w) :
    ∀ v ∈ vs, v < g.blocks.length :=
  fun v hv => ((hc.mem_iff v).mp hv).1

/-- Different blocks that all have edges are no more than there are
edges. -/
theorem length_le_of_sources {vs : List Nat} (hnodup : vs.Nodup)
    (hsources : ∀ v ∈ vs, ∃ e ∈ g.edges, e.source = v) : vs.length ≤ g.edges.length := by
  have hsub : vs ⊆ g.edges.map Edge.source := fun v hv => List.mem_map.mpr (hsources v hv)
  have hle := (hnodup.subperm hsub).length_le
  rwa [List.length_map] at hle

/-- The back edges of a graph are those that close its chain. -/
theorem Verified.backEdges_eq (h : g.Verified) {vs : List Nat} {w : Nat} (hc : g.Chain vs w) :
    g.backEdges = g.closing vs w := by
  have hsources : ∀ v ∈ vs, ∃ e ∈ g.edges, e.source = v := by
    intro v hv
    obtain ⟨hlt, hne⟩ := (hc.mem_iff v).mp hv
    obtain ⟨next, before, after, hsuccessors, -⟩ := h.exists_successors hlt hne
    have hmem : ⟨v, next, .always⟩ ∈ g.successors v := by
      rw [hsuccessors]
      exact List.mem_append_right _ List.mem_cons_self
    exact ⟨_, mem_successors.mp hmem⟩
  exact h.depthFirst_leads hc.leads hc.nodup hc.lt (fun _ _ => List.not_mem_nil)
    List.not_mem_nil (hc.ends.imp_right .inr) List.not_mem_nil (List.forall_mem_nil _)
    (Nat.le_succ_of_le (length_le_of_sources hc.nodup hsources))

end CallFlow.Graph
