/-
The code that a verified graph is rendered to.

The blocks are laid out along their chain, each with a branch to the exit for every
condition. If the chain goes back, the blocks from its header on stand in a loop, and the
last of them, the latch, goes round again as long as its first condition does not hold.
-/
import CallFlow.Graph.Render
import CallFlow.Proofs.Graph.Chain

namespace CallFlow.Graph

variable {g : Graph}

/-- The code of a block in front of what comes after it. -/
def blockCode (g : Graph) (v : Nat) : List Expr :=
  (g.operations v).map Operation.toExpr
    ++ (g.conditions v).map fun s => .branchOn exitLabel s .zero

/-- The code of blocks, one after the other. -/
def chainCode (g : Graph) (vs : List Nat) : List Expr :=
  vs.flatMap g.blockCode

/-- Whether one of some blocks has a condition. -/
def branches (g : Graph) (vs : List Nat) : Bool :=
  vs.any fun v => !(g.conditions v).isEmpty

/-- The code in front of the exit, in a block if something in it
branches to the exit. -/
def enclosed (exits : Bool) (code : List Expr) : List Expr :=
  if exits then [.block exitLabel code] else code

/-- The code of a loop through blocks that a latch closes. -/
def roundCode (g : Graph) (body : List Nat) (latch : Nat) (s : Slot) : List Expr :=
  g.chainCode body ++ (g.operations latch).map Operation.toExpr
    ++ [.branchOn loopLabel s .nonzero]

-- =============================================================== drafts

namespace Draft

/-- Adds code that branches to the exit or does not. -/
def add (d : Draft) (code : List Expr) (exits : Bool) : Draft :=
  { d.append code with exits := d.exits || exits }

theorem add_nil (d : Draft) : d.add [] false = d := by
  obtain ⟨outer, inner, exits⟩ := d
  cases inner <;> simp [add, append]

/-- Two additions are one of both codes, and the draft exits if one of
them did. -/
theorem add_add (d : Draft) (code code' : List Expr) (exits exits' : Bool) :
    (d.add code exits).add code' exits' = d.add (code ++ code') (exits || exits') := by
  obtain ⟨outer, inner, exits⟩ := d
  cases inner <;> simp [add, append, Bool.or_assoc]

/-- A block and the branches behind it are one addition: it exits if
there is a condition. -/
theorem branchOut_append (d : Draft) (code : List Expr) (conditions : List Slot) :
    (d.append code).branchOut conditions
      = d.add (code ++ conditions.map fun s => .branchOn exitLabel s .zero)
          (!conditions.isEmpty) := by
  obtain ⟨outer, inner, exits⟩ := d
  cases inner <;> simp [add, append, branchOut]

theorem isSome_inner_add (d : Draft) (code : List Expr) (exits : Bool) :
    (d.add code exits).inner.isSome = d.inner.isSome := by
  obtain ⟨outer, inner, exits⟩ := d
  cases inner <;> rfl

theorem openLoop_of_isSome {d : Draft} (h : d.inner.isSome = true) : d.openLoop = d := by
  obtain ⟨outer, inner, exits⟩ := d
  obtain ⟨code, rfl⟩ := Option.isSome_iff_exists.mp h
  rfl

end Draft

-- =============================================================== layout

section Layout

variable {header latch : Option Nat} {d : Draft}

/-- Opening the loop first does not change the layout from the header
on. -/
theorem layOut_header {v : Nat} (hv : v ≠ g.exit) (hheader : header = some v) (budget : Nat) :
    layOut g header latch (budget + 1) v d = layOut g header latch (budget + 1) v d.openLoop := by
  have hopen : d.openLoop.openLoop = d.openLoop := Draft.openLoop_of_isSome rfl
  simp only [layOut, if_neg hv, if_pos hheader, hopen]

/-- Blocks in front of the latch are laid out one after the other. The
loop does not open among them. The induction is over the blocks, and the
budget goes down with each of them. -/
theorem layOut_leads {v w : Nat} {vs : List Nat} (hleads : g.Leads v vs w)
    (hlatch : ∀ x ∈ vs, latch ≠ some x)
    (hheader : ∀ x ∈ vs, header = some x → d.inner.isSome = true) (budget : Nat) :
    layOut g header latch (vs.length + budget) v d
      = layOut g header latch budget w (d.add (g.chainCode vs) (g.branches vs)) := by
  induction hleads generalizing d with
  | nil => rw [List.length_nil, Nat.zero_add, chainCode, branches, List.flatMap_nil, List.any_nil,
      Draft.add_nil]
  | @cons v next w vs inner step rest ih =>
    obtain ⟨hv, hlatch⟩ := List.forall_mem_cons.mp hlatch
    obtain ⟨hopen, hheader⟩ := List.forall_mem_cons.mp hheader
    have hd : (if header = some v then d.openLoop else d) = d := by
      split
      · next h => exact Draft.openLoop_of_isSome (hopen h)
      · rfl
    have hheader' : ∀ x ∈ vs, header = some x →
        (d.add (g.blockCode v) (!(g.conditions v).isEmpty)).inner.isSome = true := by
      intro x hx h
      rw [Draft.isSome_inner_add]
      exact hheader x hx h
    rw [List.length_cons, Nat.add_right_comm, layOut, if_neg inner]
    simp only [hd, if_neg hv, step, Draft.branchOut_append]
    rw [← blockCode, ih hlatch hheader', Draft.add_add]
    rfl

/-- The latch closes the loop. -/
theorem layOut_latch {v : Nat} (hv : v ≠ g.exit) {inner : List Expr} (hinner : d.inner = some inner)
    {s : Slot} {ss : List Slot} (hconditions : g.conditions v = s :: ss) (budget : Nat) :
    layOut g header (some v) (budget + 1) v d
      = .ok { d with
          outer := d.outer ++ [.loop loopLabel (inner ++ (g.operations v).map Operation.toExpr
            ++ [.branchOn loopLabel s .nonzero])]
          inner := none } := by
  have hd : (if header = some v then d.openLoop else d) = d := by
    split
    · exact Draft.openLoop_of_isSome (by rw [hinner]; rfl)
    · rfl
  simp only [layOut, if_neg hv, hd, if_true, hconditions]
  obtain ⟨outer, _, exits⟩ := d
  cases hinner
  rfl

end Layout

-- ============================================================ rendering

/-- The layout stops at the exit, with whatever budget: the exit block
is rendered apart from the draft. -/
theorem layOut_exit (header latch : Option Nat) (budget : Nat) (d : Draft) :
    layOut g header latch budget g.exit d = .ok d := by
  cases budget with
  | zero => rw [layOut, if_pos rfl]
  | succ budget => rw [layOut, if_pos rfl]

/-- There are at least as many rounds as blocks in the chain. -/
theorem Chain.exists_budget {vs : List Nat} {w : Nat} (hc : g.Chain vs w) :
    ∃ k, g.blocks.length = vs.length + k :=
  Nat.exists_eq_add_of_le (length_le_of_forall_lt hc.nodup hc.lt)

/-- A graph that passes its checks renders to the code of its draft, in
a block if it is left by a branch, and the exit block behind it. -/
theorem render_eq_ok (h : g.Verified) {d : Draft}
    (hd : layOut g g.loopHeader? g.latch? g.blocks.length g.entry {} = .ok d) :
    g.render = .ok (enclosed d.exits d.outer ++ (g.operations g.exit).map Operation.toExpr) := by
  rw [render, verify_eq_ok.mpr h, hd]
  rfl

/-- A graph whose chain ends at the exit has no back edge, hence no
loop. -/
theorem Verified.backEdges_straight (h : g.Verified) {vs : List Nat} (hc : g.Chain vs g.exit) :
    g.backEdges = [] := by
  rw [h.backEdges_eq hc, closing, if_pos rfl]

/-- A chain to the exit is rendered block by block. -/
theorem Verified.render_straight (h : g.Verified) {vs : List Nat} (hc : g.Chain vs g.exit) :
    g.render = .ok (enclosed (g.branches vs) (g.chainCode vs)
      ++ (g.operations g.exit).map Operation.toExpr) := by
  have hback := h.backEdges_straight hc
  have hheader : g.loopHeader? = none := by
    rw [loopHeader?, hback]
    rfl
  have hlatch : g.latch? = none := by
    rw [latch?, hback]
    rfl
  obtain ⟨k, hk⟩ := hc.exists_budget
  have hnone : ∀ x ∈ vs, (none : Option Nat) ≠ some x := fun x _ => (Option.some_ne_none x).symm
  refine render_eq_ok h (d := Draft.add {} (g.chainCode vs) (g.branches vs)) ?_
  rw [hheader, hlatch, hk,
    layOut_leads hc.leads hnone (fun x hx heq => absurd heq (hnone x hx)), layOut_exit]

/-- A chain that goes back, in parts: what is in front of the header,
and a round from the header to the latch. -/
structure Cycle (g : Graph) (front body : List Nat) (header latch : Nat) : Prop where
  chain : g.Chain (front ++ (body ++ [latch])) header
  front : g.Leads g.entry front header
  body : g.Leads header body latch
  step : g.fallthrough? latch = some header

/-- A chain that does not end at the exit comes back to one of its
blocks, which splits it into what is before the loop and the loop. -/
theorem Chain.exists_cycle {vs : List Nat} {w : Nat} (hc : g.Chain vs w) (hw : w ≠ g.exit) :
    ∃ front body latch, g.Cycle front body w latch := by
  obtain ⟨front, rest, rfl⟩ := List.append_of_mem (hc.ends.resolve_left hw)
  obtain ⟨x, hfront, hround⟩ := hc.leads.split
  obtain rfl : x = w := by cases hround with | cons => rfl
  obtain ⟨body, latch, hbody⟩ : ∃ body latch, x :: rest = body ++ [latch] :=
    ⟨_, _, (List.dropLast_append_getLast (List.cons_ne_nil x rest)).symm⟩
  rw [hbody] at hc hround
  obtain ⟨y, hbody, hlast⟩ := hround.split
  cases hlast with
  | cons _ step rest =>
    cases rest with
    | nil => exact ⟨front, body, latch, hc, hfront, hbody, step⟩

namespace Cycle

variable {front body : List Nat} {header latch : Nat}

theorem mem (hc : g.Cycle front body header latch) :
    latch < g.blocks.length ∧ latch ≠ g.exit :=
  (hc.chain.mem_iff latch).mp (List.mem_append_right _ (List.mem_append_right _
    (List.mem_singleton.mpr rfl)))

/-- The header of the loop is a block of the chain, and so not the exit. -/
theorem header_ne_exit (hc : g.Cycle front body header latch) : header ≠ g.exit := by
  have hbody := hc.body
  cases hbody with
  | nil => exact hc.mem.2
  | cons inner => exact inner

/-- The header is in the loop: it is its first block, which may be the
latch too. -/
theorem header_mem (hc : g.Cycle front body header latch) : header ∈ body ++ [latch] := by
  have hbody := hc.body
  cases hbody with
  | nil => exact List.mem_singleton.mpr rfl
  | cons => exact List.mem_cons_self

/-- The only back edge of such a graph is the one from the latch to the
header, and it is always taken. -/
theorem backEdges (hc : g.Cycle front body header latch) (h : g.Verified) :
    g.backEdges = [⟨latch, header, .always⟩] := by
  rw [h.backEdges_eq hc.chain, closing, if_neg hc.header_ne_exit, ← List.append_assoc,
    List.getLast?_concat]
  rfl

/-- The latch has a condition. -/
theorem exists_conditions (hc : g.Cycle front body header latch) (h : g.Verified) :
    ∃ s ss, g.conditions latch = s :: ss := by
  have hmem : ⟨latch, header, .always⟩ ∈ g.backEdges := by
    rw [hc.backEdges h]
    exact List.mem_singleton.mpr rfl
  obtain ⟨-, -, e, he, -, hconditional⟩ := h.back _ hmem
  refine List.exists_cons_of_ne_nil fun hnil => ?_
  have hnone := List.filterMap_eq_nil_iff.mp hnil e he
  cases htrigger : e.trigger with
  | always =>
    rw [htrigger] at hconditional
    cases hconditional
  | ifZero s =>
    rw [htrigger] at hnone
    cases hnone

/-- A chain that goes back is rendered with a loop. The draft has the
blocks in front of the header outside the loop and those from the header
to the latch inside. -/
theorem render (hc : g.Cycle front body header latch) (h : g.Verified) {s : Slot} {ss : List Slot}
    (hconditions : g.conditions latch = s :: ss) :
    g.render = .ok (enclosed (g.branches (front ++ body))
        (g.chainCode front ++ [.loop loopLabel (g.roundCode body latch s)])
      ++ (g.operations g.exit).map Operation.toExpr) := by
  have hheader : g.loopHeader? = some header := by
    rw [loopHeader?, hc.backEdges h]
    rfl
  have hlatch : g.latch? = some latch := by
    rw [latch?, hc.backEdges h]
    rfl
  obtain ⟨-, hround, hdisjoint⟩ := List.nodup_append.mp hc.chain.nodup
  obtain ⟨-, -, hlast⟩ := List.nodup_append.mp hround
  have hfrontLatch : ∀ x ∈ front, some latch ≠ some x := fun x hx heq =>
    hdisjoint x hx latch (List.mem_append_right _ (List.mem_singleton.mpr rfl))
      (Option.some.inj heq).symm
  have hfrontHeader : ∀ x ∈ front, some header = some x → (Draft.inner {}).isSome = true :=
    fun x hx heq => absurd (Option.some.inj heq).symm (hdisjoint x hx header hc.header_mem)
  have hbodyLatch : ∀ x ∈ body, some latch ≠ some x := fun x hx heq =>
    hlast x hx latch (List.mem_singleton.mpr rfl) (Option.some.inj heq).symm
  obtain ⟨k, hk⟩ := hc.chain.exists_budget
  rw [List.length_append, List.length_append, List.length_singleton, Nat.add_assoc, Nat.add_assoc,
    Nat.add_comm 1 k] at hk
  have hbranches : g.branches (front ++ body) = (g.branches front || g.branches body) :=
    List.any_append
  rw [hbranches]
  refine render_eq_ok h (d := { outer := _, inner := none, exits := _ }) ?_
  rw [hheader, hlatch, hk, layOut_leads hc.front hfrontLatch hfrontHeader, ← Nat.add_assoc,
    layOut_header hc.header_ne_exit rfl, Nat.add_assoc,
    layOut_leads hc.body hbodyLatch (fun _ _ _ => rfl), layOut_latch hc.mem.2 rfl hconditions]
  rfl

end Cycle

end CallFlow.Graph
