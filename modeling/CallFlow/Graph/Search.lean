/-
Searches in control-flow graphs: what can be reached, what dominates what, and
which edges close a loop.

Every search runs on a budget that its graph bounds. A spread pops one entry of
its stack a round, and each edge adds one entry at most once, so one round more
than there are edges is enough. A depth-first path meets every block at most
once and reaches each but the first by an edge of its own, so the same number
bounds its length.
-/
import CallFlow.Graph.Basic

namespace CallFlow.Graph

/-- The blocks found from a stack of blocks to look at, together with
those already `seen`, which are not entered again. What was pushed last
is looked at first. -/
def spread (next : Nat → List Nat) : (budget : Nat) → (seen stack : List Nat) → List Nat
  | _, seen, [] => seen
  | 0, seen, _ => seen
  | budget + 1, seen, v :: stack =>
    if v ∈ seen then spread next budget seen stack
    else spread next budget (v :: seen) ((next v).reverse ++ stack)

/-- Whether `goal` is found from a stack of blocks to look at. The
search is that of `spread`, but stops at the goal. -/
def finds (next : Nat → List Nat) (goal : Nat) : (budget : Nat) → (seen stack : List Nat) → Bool
  | _, _, [] => false
  | 0, _, _ => false
  | budget + 1, seen, v :: stack =>
    if v = goal then true
    else if v ∈ seen then finds next goal budget seen stack
    else finds next goal budget (v :: seen) ((next v).reverse ++ stack)

/-- The number of rounds that a search may need. -/
def budget (g : Graph) : Nat :=
  g.edges.length + 1

/-- The blocks on a path from the entry. -/
def reachable (g : Graph) : List Nat :=
  spread g.targets g.budget [] [g.entry]

/-- The blocks on a path to the exit. -/
def reachingExit (g : Graph) : List Nat :=
  spread g.sources g.budget [] [g.exit]

/-- Whether every path from the entry to `v` passes through `d`: with
`d` closed, `v` is not found from the entry. -/
def dominates (g : Graph) (d v : Nat) : Bool :=
  d == v || !finds g.targets v g.budget [d] [g.entry]

/-- Depth-first search from `v`, at the end of a path. Returns the
blocks visited and the edges found that lead back to the path. -/
def depthFirst (g : Graph) :
    (budget v : Nat) → (path visited : List Nat) → List Nat × List Edge
  | 0, _, _, visited => (visited, [])
  | budget + 1, v, path, visited =>
    (g.successors v).foldl
      (fun (visited, back) e =>
        if e.target ∈ v :: path then (visited, back ++ [e])
        else if e.target ∈ visited then (visited, back)
        else
          let (visited, found) := depthFirst g budget e.target (v :: path) visited
          (visited, back ++ found))
      (v :: visited, [])

/-- The edges that lead back to a block on the depth-first path from the
entry, in the order in which they are found. -/
def backEdges (g : Graph) : List Edge :=
  (depthFirst g g.budget g.entry [] []).2

/-- The block at which the first loop starts. -/
def loopHeader? (g : Graph) : Option Nat :=
  g.backEdges.head?.map Edge.target

/-- The block that ends a round of the first loop. -/
def latch? (g : Graph) : Option Nat :=
  g.backEdges.head?.map Edge.source

end CallFlow.Graph
