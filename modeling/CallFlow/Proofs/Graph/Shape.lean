/-
What verification is for.

An accepted graph is a chain of blocks, so rendering follows it to its end. It does not use up its
budget, which would be an error, and it meets neither a block without a way on nor a latch without
a condition. Read through its blocks and loops, the code performs the operations of each block of
the chain once and in order: blocks and loops are put around the code of blocks, and branches
between them, but nothing is moved, dropped or repeated.
-/
import CallFlow.Proofs.Graph.Layout

namespace CallFlow

-- ================================================================ steps

namespace Expr

mutual

/-- What an expression performs, read in order through blocks and loops.
Branches perform nothing. -/
def steps : Expr → List Expr
  | block _ body => stepsAll body
  | loop _ body => stepsAll body
  | branchIf .. => []
  | const c => [const c]
  | get i t => [get i t]
  | set i v => [set i v]
  | call f args t => [call f args t]
  | load t a => [load t a]
  | store t a v => [store t a v]
  | returnValue v => [returnValue v]
  | returnNone => [returnNone]

/-- What code performs, read in order through blocks and loops. -/
def stepsAll : List Expr → List Expr
  | [] => []
  | e :: es => steps e ++ stepsAll es

end

/-- The steps of code one behind the other are those of each part in
turn. -/
theorem stepsAll_append (es es' : List Expr) :
    stepsAll (es ++ es') = stepsAll es ++ stepsAll es' := by
  induction es with
  | nil => simp [stepsAll]
  | cons e es ih => simp [stepsAll, ih]

/-- A loop has the steps of its body: being repeated is no step. -/
theorem stepsAll_loop (label : String) (body : List Expr) :
    stepsAll [.loop label body] = stepsAll body := by
  simp [stepsAll, steps]

/-- An operation is performed by one step. -/
theorem stepsAll_operations (ops : List Operation) :
    stepsAll (ops.map Operation.toExpr) = ops.map Operation.toExpr := by
  induction ops with
  | nil => simp [stepsAll]
  | cons op ops ih =>
    have hop : steps op.toExpr = [op.toExpr] := by
      cases op <;> simp [Operation.toExpr, steps]
    rw [List.map_cons, stepsAll, hop, ih, List.singleton_append]

theorem stepsAll_branches (label : String) (test : BranchTest) (slots : List Slot) :
    stepsAll (slots.map fun s => .branchOn label s test) = [] := by
  induction slots with
  | nil => simp [stepsAll]
  | cons s slots ih => rw [List.map_cons, stepsAll, ih, branchOn, steps, List.nil_append]

end Expr

namespace Graph

variable {g : Graph}

/-- The code of blocks performs their operations, block by block. -/
theorem stepsAll_chainCode (vs : List Nat) :
    Expr.stepsAll (g.chainCode vs) = (vs.flatMap g.operations).map Operation.toExpr := by
  induction vs with
  | nil => simp [chainCode, Expr.stepsAll]
  | cons v vs ih =>
    have hblock : Expr.stepsAll (g.blockCode v) = (g.operations v).map Operation.toExpr := by
      rw [blockCode, Expr.stepsAll_append, Expr.stepsAll_operations, Expr.stepsAll_branches,
        List.append_nil]
    rw [chainCode, List.flatMap_cons, ← chainCode, Expr.stepsAll_append, hblock, ih,
      List.flatMap_cons, List.map_append]

/-- The code of a loop performs the operations of its blocks and of its
latch. -/
theorem stepsAll_roundCode (body : List Nat) (latch : Nat) (s : Slot) :
    Expr.stepsAll (g.roundCode body latch s)
      = ((body ++ [latch]).flatMap g.operations).map Operation.toExpr := by
  have hbranch : Expr.stepsAll [.branchOn loopLabel s .nonzero] = [] :=
    Expr.stepsAll_branches loopLabel .nonzero [s]
  rw [roundCode, Expr.stepsAll_append, Expr.stepsAll_append, stepsAll_chainCode,
    Expr.stepsAll_operations, hbranch, List.append_nil, List.flatMap_append, List.map_append,
    List.flatMap_singleton]

/-- The block around a draft adds no step, so that both forms of a
rendered graph have the steps of the draft. -/
theorem stepsAll_enclosed (exits : Bool) (code : List Expr) :
    Expr.stepsAll (enclosed exits code) = Expr.stepsAll code := by
  cases exits with
  | false => rfl
  | true => simp [enclosed, Expr.stepsAll, Expr.steps]

-- ================================================================ shape

/-- Verification pins down the shape that rendering needs. The blocks of
an accepted graph other than the exit form one chain along edges without
a condition, each in it once. It ends at the exit, and then no edge
leads back, or it closes with the one edge that leads back, from its
last block to a block of its own. Rendering succeeds: its code performs
the operations of the chain in order, and behind them, outside of every
block and loop, stand those of the exit. -/
theorem render_in_chain_order (h : g.verify = .ok ()) :
    ∃ vs w front, g.Chain vs w
      ∧ (w = g.exit ∧ g.backEdges = []
        ∨ w ∈ vs ∧ ∃ latch, vs.getLast? = some latch ∧ g.backEdges = [⟨latch, w, .always⟩])
      ∧ g.render = .ok (front ++ (g.operations g.exit).map Operation.toExpr)
      ∧ Expr.stepsAll front = (vs.flatMap g.operations).map Operation.toExpr := by
  have hv := verify_eq_ok.mp h
  obtain ⟨vs, w, hc⟩ := hv.exists_chain
  by_cases hw : w = g.exit
  · subst hw
    refine ⟨vs, g.exit, _, hc, .inl ⟨rfl, hv.backEdges_straight hc⟩, hv.render_straight hc, ?_⟩
    rw [stepsAll_enclosed, stepsAll_chainCode]
  · obtain ⟨front, body, latch, hcycle⟩ := hc.exists_cycle hw
    obtain ⟨s, ss, hconditions⟩ := hcycle.exists_conditions hv
    have hlast : (front ++ (body ++ [latch])).getLast? = some latch := by
      rw [← List.append_assoc, List.getLast?_concat]
    refine ⟨front ++ (body ++ [latch]), w, _, hcycle.chain,
      .inr ⟨List.mem_append_right _ hcycle.header_mem, latch, hlast, hcycle.backEdges hv⟩,
      hcycle.render hv hconditions, ?_⟩
    rw [stepsAll_enclosed, Expr.stepsAll_append, stepsAll_chainCode, Expr.stepsAll_loop,
      stepsAll_roundCode, ← List.map_append, ← List.flatMap_append]

/-- Blocks in another order than that of their chain, which is 3, 0, 4,
1 and goes back to 0. The loop can be left at its start and at its end. -/
def shuffled : Graph where
  blocks :=
    [⟨"head", [.call counter "next" [.slot counter] .i32]⟩, ⟨"latch", []⟩,
      ⟨"done", [.init total (.slot counter), .ret total]⟩,
      ⟨"start", [.init counter (.const (.i32 3))]⟩, ⟨"body", [.call total "next" [] .i32]⟩]
  edges :=
    [⟨1, 2, .ifZero total⟩, ⟨4, 1, .always⟩, ⟨0, 2, .ifZero counter⟩, ⟨3, 0, .always⟩,
      ⟨0, 4, .always⟩, ⟨1, 0, .always⟩]
  entry := 3
  exit := 2
where
  counter : Slot := { index := 0, type := .i32, origin := .localVariable }
  total : Slot := { index := 1, type := .i32, origin := .localVariable }

theorem shuffled_in_chain_order :
    shuffled.verify = .ok ()
      ∧ ∃ vs w front, shuffled.Chain vs w
        ∧ (w = shuffled.exit ∧ shuffled.backEdges = []
          ∨ w ∈ vs ∧ ∃ latch, vs.getLast? = some latch
            ∧ shuffled.backEdges = [⟨latch, w, .always⟩])
        ∧ shuffled.render
          = .ok (front ++ (shuffled.operations shuffled.exit).map Operation.toExpr)
        ∧ Expr.stepsAll front = (vs.flatMap shuffled.operations).map Operation.toExpr :=
  ⟨by decide, render_in_chain_order (by decide)⟩

end Graph

end CallFlow
