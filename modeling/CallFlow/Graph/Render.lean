/-
Rendering: structured code for a verified graph.

The blocks are laid out along their unconditional edges. All code in front of the
exit stands in one block, which the conditional edges branch out of; the loop
header opens a loop, which the latch closes with a branch back to its start.
-/
import CallFlow.Graph.Verify

namespace CallFlow.Graph

/-- The label of the block around all code in front of the exit. -/
def exitLabel : String := "exit"

/-- The label of the loop. -/
def loopLabel : String := "repeat"

/-- Code under construction: what stands outside the loop, what stands
in the loop if it is open, and whether the exit was branched to. -/
structure Draft where
  outer : List Expr := []
  inner : Option (List Expr) := none
  exits : Bool := false

namespace Draft

/-- Opens the loop unless it is open. -/
def openLoop (d : Draft) : Draft :=
  { d with inner := some (d.inner.getD []) }

/-- Adds code to the loop if it is open, and outside it otherwise. -/
def append (d : Draft) (code : List Expr) : Draft :=
  match d.inner with
  | some inner => { d with inner := some (inner ++ code) }
  | none => { d with outer := d.outer ++ code }

/-- Closes the loop if it is open. -/
def closeLoop (d : Draft) : Draft :=
  match d.inner with
  | some inner => { d with outer := d.outer ++ [.loop loopLabel inner], inner := none }
  | none => d

/-- Adds a branch to the exit for each condition. -/
def branchOut (d : Draft) (conditions : List Slot) : Draft :=
  { d.append (conditions.map fun s => .branchOn exitLabel s .zero) with
    exits := d.exits || !conditions.isEmpty }

/-- The code in front of the exit, in a block if the exit was branched
to. -/
def code (d : Draft) : List Expr :=
  if d.exits then [.block exitLabel d.outer] else d.outer

end Draft

/-- Lays out the blocks from `v` on. A walk that has used up its budget
of one round for each block goes in circles. -/
def layOut (g : Graph) (header latch : Option Nat) :
    (budget v : Nat) → Draft → Except GraphFault Draft
  | 0, v, d => if v = g.exit then .ok d else .error (.neverExits v)
  | budget + 1, v, d =>
    if v = g.exit then .ok d
    else
      let d := if header = some v then d.openLoop else d
      let d := d.append ((g.operations v).map Operation.toExpr)
      let conditions := g.conditions v
      if latch = some v then
        match conditions with
        | [] => .error (.latchWithoutCondition v)
        | s :: _ => .ok (d.append [.branchOn loopLabel s .nonzero]).closeLoop
      else
        match g.fallthrough? v with
        | none => .error (.noFallthrough v)
        | some next => layOut g header latch budget next (d.branchOut conditions)

/-- The structured code of a graph. -/
def render (g : Graph) : Except GraphFault (List Expr) := do
  g.verify
  let d ← layOut g g.loopHeader? g.latch? g.blocks.length g.entry {}
  return d.code ++ (g.operations g.exit).map Operation.toExpr

end CallFlow.Graph
