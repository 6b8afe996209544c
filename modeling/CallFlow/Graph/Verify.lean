/-
Verification: what a graph must satisfy to become structured code.

Each group of conditions finds its first violation, and the first group with one
decides.
-/
import CallFlow.Graph.Search

namespace CallFlow.Graph

/-- The entry and the exit must be blocks. -/
def endsFault? (g : Graph) : Option GraphFault :=
  if g.hasBlock g.entry && g.hasBlock g.exit then none else some .endsMissing

/-- Edges must join blocks. -/
def edgeFault? (g : Graph) : Option GraphFault :=
  g.edges.findSome? fun e =>
    if g.hasBlock e.source && g.hasBlock e.target then none
    else some (.edgeLeaves e.source e.target)

/-- The exit must end in its only return and lead nowhere; every other
block must not return and must have one edge without a condition. -/
def blockFault? (g : Graph) (b : Block) (v : Nat) : Option GraphFault :=
  let returns := b.operations.countP Operation.isRet
  if v = g.exit then
    if returns ≠ 1 ∨ !(b.operations.getLast?.any Operation.isRet) then
      some (.exitWithoutReturn v)
    else if !(g.successors v).isEmpty then some (.exitContinues v)
    else none
  else if returns ≠ 0 then some (.earlyReturn v)
  else
    let count := (g.successors v).countP fun e => e.trigger.isAlways
    if count ≠ 1 then some (.fallthroughs v count) else none

/-- The first block that is at fault. -/
def blocksFault? (g : Graph) : Option GraphFault :=
  g.blocks.zipIdx.findSome? fun (b, v) => g.blockFault? b v

/-- Every block must be on a path from the entry. -/
def unreachableFault? (g : Graph) : Option GraphFault :=
  let found := g.reachable
  (List.range g.blocks.length).findSome? fun v =>
    if found.contains v then none else some (.unreachable v)

/-- Every block must be on a path to the exit. -/
def stuckFault? (g : Graph) : Option GraphFault :=
  let found := g.reachingExit
  (List.range g.blocks.length).findSome? fun v =>
    if found.contains v then none else some (.neverExits v)

/-- Loops must share one header. -/
def headersFault? (g : Graph) : Option GraphFault :=
  let count := (g.backEdges.map Edge.target).eraseDups.length
  if 1 < count then some (.manyHeaders count) else none

/-- A back edge must be unconditional, lead to a block that dominates
its source, and leave from a block with a conditional edge to the exit. -/
def backEdgeFault? (g : Graph) (e : Edge) : Option GraphFault :=
  if !e.trigger.isAlways then some (.conditionalBackEdge e.source e.target)
  else if !g.dominates e.target e.source then some (.headerBypassed e.target e.source)
  else if (g.successors e.source).any fun s => s.target == g.exit && !s.trigger.isAlways then none
  else some (.latchNeverLeaves e.source)

/-- A conditional edge may only lead to the exit. -/
def conditionFault? (g : Graph) : Option GraphFault :=
  g.edges.findSome? fun e =>
    if !e.trigger.isAlways && e.target != g.exit then
      some (.conditionalElsewhere e.source e.target)
    else none

/-- The first violation. -/
def fault? (g : Graph) : Option GraphFault :=
  g.endsFault?
    <|> g.edgeFault?
    <|> g.blocksFault?
    <|> g.unreachableFault?
    <|> g.stuckFault?
    <|> g.headersFault?
    <|> g.backEdges.findSome? g.backEdgeFault?
    <|> g.conditionFault?

/-- Accepts a graph that satisfies every condition. -/
def verify (g : Graph) : Except GraphFault Unit :=
  match g.fault? with
  | some fault => .error fault
  | none => .ok ()

end CallFlow.Graph
