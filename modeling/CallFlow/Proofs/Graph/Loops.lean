/-
The edges that close loops.

A depth-first search tells three kinds of blocks apart: those on its path, those that it has
left for good, and those that it has not met. An edge back to the path is reported. Every
other edge of a block leads to a block that was left before it: one met for the first time
is entered and left before the search goes on. So along edges that are not reported one comes
only to blocks that were left earlier, and never round in a circle (`Scans.acc`).

A path of the search does not meet a block twice, and each of its blocks but the last is the
source of an edge, so the path never gets longer than its budget (`depthFirst_scans`).
-/
import CallFlow.Proofs.Graph.Dominance

namespace CallFlow.Graph

variable {g : Graph}

-- ============================================================= circuits

/-- There is a path from the first block to the second. -/
def Reaches (g : Graph) (u v : Nat) : Prop :=
  ∃ es, g.Path u es v

theorem Reaches.refl (v : Nat) : g.Reaches v v :=
  ⟨[], .nil⟩

theorem Reaches.step {u : Nat} {e : Edge} (h : g.Reaches u e.source) (edge : e ∈ g.edges) :
    g.Reaches u e.target := by
  obtain ⟨es, hpath⟩ := h
  exact ⟨es ++ [e], hpath.concat edge⟩

/-- What holds of the start of a path and is handed on by every edge
holds of its end. -/
theorem Reaches.induction {P : Nat → Prop} (hnext : ∀ e ∈ g.edges, P e.source → P e.target)
    {u v : Nat} (h : g.Reaches u v) (hu : P u) : P v := by
  obtain ⟨es, hpath⟩ := h
  induction hpath with
  | nil => exact hu
  | cons edge source _ ih => exact ih (hnext _ edge (source ▸ hu))

/-- The edges of a way from a block back to it, for a block that is
reached from the entry. -/
def Circuit (g : Graph) (round : List Edge) : Prop :=
  round ≠ [] ∧ ∃ v, g.Reaches g.entry v ∧ g.Path v round v

-- ====================================================== the depth-first search

/-- A depth-first search without a budget. At the block that is first in
the list of its path, with some edges left to follow and some blocks
visited, it ends with more blocks visited and reports edges that lead
back to its path. -/
inductive Scans (g : Graph) :
    (path : List Nat) → (es : List Edge) → (visited found : List Nat) → (back : List Edge) → Prop
  | done {path visited : List Nat} : Scans g path [] visited visited []
  | report {path visited found : List Nat} {e : Edge} {es back : List Edge}
      (closes : e.target ∈ path) (rest : Scans g path es visited found back) :
      Scans g path (e :: es) visited found (e :: back)
  | skip {path visited found : List Nat} {e : Edge} {es back : List Edge}
      (aside : e.target ∉ path) (known : e.target ∈ visited)
      (rest : Scans g path es visited found back) : Scans g path (e :: es) visited found back
  | enter {path visited between found : List Nat} {e : Edge} {es inside back : List Edge}
      (aside : e.target ∉ path) (fresh : e.target ∉ visited)
      (inner : Scans g (e.target :: path) (g.successors e.target) (e.target :: visited)
        between inside)
      (rest : Scans g path es between found back) :
      Scans g path (e :: es) visited found (inside ++ back)

/-- The edges of a block are followed one after the other. What one
visit does is given as a hypothesis, so that the lemma can be used in
the induction for the search itself. -/
theorem foldl_visit_scans {budget v : Nat} {path : List Nat} {es : List Edge}
    (hinner : ∀ e ∈ es, e.target ∉ v :: path → ∀ visited,
      g.Scans (e.target :: v :: path) (g.successors e.target) (e.target :: visited)
        (depthFirst g budget e.target (v :: path) visited).1
        (depthFirst g budget e.target (v :: path) visited).2)
    (found : List Nat × List Edge) :
    ∃ back, (es.foldl (g.visit budget v path) found).2 = found.2 ++ back
      ∧ g.Scans (v :: path) es found.1 (es.foldl (g.visit budget v path) found).1 back := by
  induction es generalizing found with
  | nil => exact ⟨[], (List.append_nil _).symm, .done⟩
  | cons e es ih =>
    obtain ⟨he, hes⟩ := List.forall_mem_cons.mp hinner
    obtain ⟨back, hback, hrest⟩ := ih hes (g.visit budget v path found e)
    rw [List.foldl_cons, hback]
    by_cases hpath : e.target ∈ v :: path
    · rw [visit, if_pos hpath] at hrest ⊢
      exact ⟨e :: back, by rw [List.append_assoc, List.singleton_append], .report hpath hrest⟩
    · by_cases hknown : e.target ∈ found.1
      · rw [visit, if_neg hpath, if_pos hknown] at hrest ⊢
        exact ⟨back, rfl, .skip hpath hknown hrest⟩
      · rw [visit, if_neg hpath, if_neg hknown] at hrest ⊢
        exact ⟨_, List.append_assoc _ _ _, .enter hpath hknown (he hpath found.1) hrest⟩

/-- The search ends within its budget. The induction is over the budget.
The blocks of the path differ and an edge starts at each, so the path is
never longer than there are edges. -/
theorem depthFirst_scans {budget v : Nat} {path : List Nat} (hnodup : (v :: path).Nodup)
    (hsources : ∀ u ∈ path, ∃ e ∈ g.edges, e.source = u)
    (hbudget : g.edges.length < budget + path.length) (visited : List Nat) :
    g.Scans (v :: path) (g.successors v) (v :: visited)
      (depthFirst g budget v path visited).1 (depthFirst g budget v path visited).2 := by
  induction budget generalizing v path visited with
  | zero =>
    have hle := length_le_of_sources (List.nodup_cons.mp hnodup).2 hsources
    omega
  | succ budget ih =>
    have hinner : ∀ e ∈ g.successors v, e.target ∉ v :: path → ∀ visited,
        g.Scans (e.target :: v :: path) (g.successors e.target) (e.target :: visited)
          (depthFirst g budget e.target (v :: path) visited).1
          (depthFirst g budget e.target (v :: path) visited).2 := by
      intro e he hpath
      refine ih (List.nodup_cons.mpr ⟨hpath, hnodup⟩) ?_ ?_
      · exact List.forall_mem_cons.mpr ⟨⟨e, mem_successors.mp he⟩, hsources⟩
      · rw [List.length_cons]
        omega
    obtain ⟨back, hback, hscan⟩ := foldl_visit_scans hinner (v :: visited, [])
    rw [depthFirst_succ, hback]
    exact hscan

/-- The second block has an edge to the first that is not one of some
edges. -/
def Onward (g : Graph) (cut : List Edge) (w v : Nat) : Prop :=
  ∃ e ∈ g.edges, e ∉ cut ∧ e.source = v ∧ e.target = w

/-- A block is accessible if each edge out of it is cut or leads to an
accessible block. -/
theorem acc_of_successors {cut : List Edge} {v : Nat}
    (h : ∀ e ∈ g.successors v, e ∈ cut ∨ Acc (g.Onward cut) e.target) :
    Acc (g.Onward cut) v := by
  refine .intro v fun w hw => ?_
  obtain ⟨e, edge, he, hsource, rfl⟩ := hw
  exact (h e (mem_successors.mpr ⟨edge, hsource⟩)).resolve_left he

namespace Scans

variable {path visited found : List Nat} {es back : List Edge}

-- ============================================== every block is visited

/-- Nothing that was visited is forgotten. -/
theorem visited_subset (h : g.Scans path es visited found back) : ∀ x ∈ visited, x ∈ found := by
  induction h with
  | done => exact fun x hx => hx
  | report _ _ ih => exact ih
  | skip _ _ _ ih => exact ih
  | enter _ _ _ _ ihInner ihRest =>
    exact fun x hx => ihRest x (ihInner x (List.mem_cons_of_mem _ hx))

/-- The edges that are followed lead to visited blocks, and so do the
edges of each block that is visited on the way. Blocks that were visited
before are an exception, as their edges may still be followed further
up. -/
theorem closed (h : g.Scans path es visited found back) (hpath : ∀ x ∈ path, x ∈ visited) :
    (∀ e ∈ es, e.target ∈ found)
      ∧ ∀ x ∈ found, x ∈ visited ∨ ∀ e ∈ g.successors x, e.target ∈ found := by
  induction h with
  | done => exact ⟨List.forall_mem_nil _, fun x hx => .inl hx⟩
  | report closes rest ih =>
    obtain ⟨hes, hfound⟩ := ih hpath
    exact ⟨List.forall_mem_cons.mpr ⟨rest.visited_subset _ (hpath _ closes), hes⟩, hfound⟩
  | skip _ known rest ih =>
    obtain ⟨hes, hfound⟩ := ih hpath
    exact ⟨List.forall_mem_cons.mpr ⟨rest.visited_subset _ known, hes⟩, hfound⟩
  | @enter path visited between found e es inside back _ _ inner rest ihInner ihRest =>
    have hgrow : ∀ x ∈ visited, x ∈ between :=
      fun x hx => inner.visited_subset x (List.mem_cons_of_mem _ hx)
    have hpath' : ∀ x ∈ e.target :: path, x ∈ e.target :: visited :=
      List.forall_mem_cons.mpr
        ⟨List.mem_cons_self, fun x hx => List.mem_cons_of_mem _ (hpath x hx)⟩
    obtain ⟨hinside, hbetween⟩ := ihInner hpath'
    obtain ⟨hes, hfound⟩ := ihRest fun x hx => hgrow x (hpath x hx)
    have htarget : e.target ∈ found :=
      rest.visited_subset _ (inner.visited_subset _ List.mem_cons_self)
    refine ⟨List.forall_mem_cons.mpr ⟨htarget, hes⟩, fun x hx => ?_⟩
    rcases hfound x hx with hmem | hclosed
    · rcases hbetween x hmem with hmem | hclosed
      · rcases List.mem_cons.mp hmem with rfl | hmem
        · exact .inr fun e' he' => rest.visited_subset _ (hinside e' he')
        · exact .inl hmem
      · exact .inr fun e' he' => rest.visited_subset _ (hclosed e' he')
    · exact .inr hclosed

/-- A search from the entry visits every block that can be reached. -/
theorem mem_of_reaches (h : g.Scans [g.entry] (g.successors g.entry) [g.entry] found back)
    {v : Nat} (hv : g.Reaches g.entry v) : v ∈ found := by
  obtain ⟨hentry, hfound⟩ := h.closed fun x hx => hx
  refine hv.induction (P := fun x => x ∈ found) ?_ (h.visited_subset _ List.mem_cons_self)
  intro e edge hsource
  rcases hfound _ hsource with hmem | hclosed
  · exact hentry e (mem_successors.mpr ⟨edge, List.mem_singleton.mp hmem⟩)
  · exact hclosed e (mem_successors.mpr ⟨edge, rfl⟩)

-- ============================================== what is reported is a loop

/-- A reported edge leads back to a block from which its source is
reached. -/
theorem reaches_source (h : g.Scans path es visited found back) {v : Nat}
    (hpath : ∀ u ∈ path, g.Reaches u v) (hentry : g.entry ∈ path)
    (hes : ∀ e ∈ es, e ∈ g.edges ∧ e.source = v) :
    ∀ e ∈ back, e ∈ g.edges ∧ g.Reaches g.entry e.target ∧ g.Reaches e.target e.source := by
  induction h generalizing v with
  | done => exact List.forall_mem_nil _
  | report closes _ ih =>
    obtain ⟨⟨edge, rfl⟩, hes⟩ := List.forall_mem_cons.mp hes
    exact List.forall_mem_cons.mpr
      ⟨⟨edge, (hpath _ hentry).step edge, hpath _ closes⟩, ih hpath hentry hes⟩
  | skip _ _ _ ih => exact ih hpath hentry (List.forall_mem_cons.mp hes).2
  | enter _ _ _ _ ihInner ihRest =>
    obtain ⟨⟨edge, rfl⟩, hes⟩ := List.forall_mem_cons.mp hes
    refine List.forall_mem_append.mpr ⟨?_, ihRest hpath hentry hes⟩
    refine ihInner ?_ (List.mem_cons_of_mem _ hentry) fun e he => mem_successors.mp he
    exact List.forall_mem_cons.mpr ⟨.refl _, fun u hu => (hpath u hu).step edge⟩

-- ============================================== what is left has no loop

/-- If the reported edges are cut, every block that is not on the path
any more comes to an end, and the edges that are followed lead to such
blocks. -/
theorem acc (h : g.Scans path es visited found back) {cut : List Edge}
    (hcut : ∀ e ∈ back, e ∈ cut) (hvisited : ∀ x ∈ visited, x ∈ path ∨ Acc (g.Onward cut) x) :
    (∀ e ∈ es, e ∈ cut ∨ Acc (g.Onward cut) e.target)
      ∧ ∀ x ∈ found, x ∈ path ∨ Acc (g.Onward cut) x := by
  induction h with
  | done => exact ⟨List.forall_mem_nil _, hvisited⟩
  | report _ _ ih =>
    obtain ⟨he, hcut⟩ := List.forall_mem_cons.mp hcut
    obtain ⟨hes, hfound⟩ := ih hcut hvisited
    exact ⟨List.forall_mem_cons.mpr ⟨.inl he, hes⟩, hfound⟩
  | skip aside known _ ih =>
    obtain ⟨hes, hfound⟩ := ih hcut hvisited
    exact ⟨List.forall_mem_cons.mpr ⟨.inr ((hvisited _ known).resolve_left aside), hes⟩, hfound⟩
  | @enter path visited between found e es inside back _ _ _ _ ihInner ihRest =>
    obtain ⟨hinside, hback⟩ := List.forall_mem_append.mp hcut
    have hvisited' : ∀ x ∈ e.target :: visited,
        x ∈ e.target :: path ∨ Acc (g.Onward cut) x :=
      List.forall_mem_cons.mpr ⟨.inl List.mem_cons_self,
        fun x hx => (hvisited x hx).imp_left (List.mem_cons_of_mem _)⟩
    obtain ⟨hedges, hbetween⟩ := ihInner hinside hvisited'
    -- All edges of the entered block have been followed, so it comes to an end as well.
    have htarget : Acc (g.Onward cut) e.target := acc_of_successors hedges
    have hleft : ∀ x ∈ between, x ∈ path ∨ Acc (g.Onward cut) x := by
      intro x hx
      rcases hbetween x hx with hmem | hacc
      · rcases List.mem_cons.mp hmem with rfl | hmem
        · exact .inr htarget
        · exact .inl hmem
      · exact .inr hacc
    obtain ⟨hes, hfound⟩ := ihRest hback hleft
    exact ⟨List.forall_mem_cons.mpr ⟨.inr htarget, hes⟩, hfound⟩

/-- From the entry, every way along edges that are not reported comes to
an end. -/
theorem acc_of_reaches (h : g.Scans [g.entry] (g.successors g.entry) [g.entry] found back)
    {v : Nat} (hv : g.Reaches g.entry v) : Acc (g.Onward back) v := by
  obtain ⟨hedges, hfound⟩ := h.acc (fun e he => he) fun x hx => .inl hx
  rcases hfound v (h.mem_of_reaches hv) with hmem | hacc
  · rw [List.mem_singleton.mp hmem]
    exact acc_of_successors hedges
  · exact hacc

end Scans

/-- A way round is cut somewhere if every way along the other edges
comes to an end. Otherwise one could go round without end. -/
theorem exists_mem_cut {cut : List Edge} {v : Nat} (hacc : Acc (g.Onward cut) v)
    {round : List Edge} (hround : g.Path v round v) (hne : round ≠ []) : ∃ e ∈ round, e ∈ cut := by
  induction hacc generalizing round with
  | intro v _ ih =>
    cases hround with
    | nil => exact absurd rfl hne
    | @cons _ _ e es edge source rest =>
      by_cases he : e ∈ cut
      · exact ⟨e, List.mem_cons_self, he⟩
      · -- The same way round, started one block later.
        have hlater : g.Path e.target (es ++ [e]) e.target :=
          rest.append (.cons edge source .nil)
        obtain ⟨e', hmem, hcut⟩ := ih e.target ⟨e, edge, he, source, rfl⟩ hlater
          (List.append_ne_nil_of_right_ne_nil _ (List.cons_ne_nil _ _))
        refine ⟨e', ?_, hcut⟩
        rcases List.mem_append.mp hmem with hmem | hmem
        · exact List.mem_cons_of_mem _ hmem
        · exact List.mem_singleton.mp hmem ▸ List.mem_cons_self

/-- The back edges are exact. Whatever the edges are, the depth-first
search ends, each edge that it reports is part of a way round that is
reached from the entry, and no such way round is left without the
reported edges. So nothing is reported exactly when there is no way
round. -/
theorem backEdges_cut_circuits (g : Graph) :
    (∃ found, g.Scans [g.entry] (g.successors g.entry) [g.entry] found g.backEdges)
      ∧ (∀ e ∈ g.backEdges, ∃ round, g.Circuit round ∧ e ∈ round)
      ∧ (∀ round, g.Circuit round → ∃ e ∈ round, e ∈ g.backEdges)
      ∧ (g.backEdges = [] ↔ ¬∃ round, g.Circuit round) := by
  have hscan : g.Scans [g.entry] (g.successors g.entry) [g.entry] _ g.backEdges :=
    depthFirst_scans (List.pairwise_singleton _ _) (List.forall_mem_nil _)
      (by rw [budget, List.length_nil]; omega) []
  have hloop : ∀ e ∈ g.backEdges, ∃ round, g.Circuit round ∧ e ∈ round := by
    intro e he
    obtain ⟨edge, hentry, es, hes⟩ := hscan.reaches_source
      (List.forall_mem_singleton.mpr (.refl _)) (List.mem_singleton.mpr rfl)
      (fun e he => mem_successors.mp he) e he
    have hmem : e ∈ es ++ [e] := List.mem_append_right _ (List.mem_singleton.mpr rfl)
    exact ⟨es ++ [e], ⟨List.ne_nil_of_mem hmem, e.target, hentry, hes.concat edge⟩, hmem⟩
  have hcut : ∀ round, g.Circuit round → ∃ e ∈ round, e ∈ g.backEdges := by
    intro round hround
    obtain ⟨hne, v, hv, hpath⟩ := hround
    exact exists_mem_cut (hscan.acc_of_reaches hv) hpath hne
  refine ⟨⟨_, hscan⟩, hloop, hcut, ?_, ?_⟩
  · intro hnil hround
    obtain ⟨round, hround⟩ := hround
    obtain ⟨e, -, he⟩ := hcut round hround
    rw [hnil] at he
    cases he
  · intro hnone
    refine List.eq_nil_iff_forall_not_mem.mpr fun e he => hnone ?_
    obtain ⟨round, hround, -⟩ := hloop e he
    exact ⟨round, hround⟩

end CallFlow.Graph
