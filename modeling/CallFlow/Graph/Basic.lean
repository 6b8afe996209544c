/-
Control-flow graphs.

A graph is a list of blocks, each a straight run of operations, and a list of
edges between block numbers. The edges that leave a block are tried in order:
one that waits for a slot to be zero is taken if it is, and the edge without a
condition is taken otherwise. Nothing here asks a graph to be well shaped; that
is what verification is for.
-/
import CallFlow.Operation

namespace CallFlow

/-- A straight run of operations. -/
structure Block where
  name : String
  operations : List Operation
  deriving DecidableEq

/-- When an edge is taken. -/
inductive Trigger where
  | always
  | ifZero (slot : Slot)
  deriving DecidableEq

namespace Trigger

/-- Whether the edge is taken without a condition. -/
def isAlways : Trigger → Bool
  | always => true
  | ifZero _ => false

/-- The slot that is waited for. -/
def slot? : Trigger → Option Slot
  | always => none
  | ifZero s => some s

end Trigger

/-- A way from one block to another. -/
structure Edge where
  source : Nat
  target : Nat
  trigger : Trigger
  deriving DecidableEq

/-- Blocks joined by edges, with an entry and an exit. -/
structure Graph where
  blocks : List Block
  edges : List Edge
  entry : Nat
  exit : Nat
  deriving DecidableEq

namespace Graph

/-- The graph of a guarded loop: `inits` run once, `calls` repeat while
the sentinel is not zero, tested before the first round and after each,
and `ret` ends the function. -/
def sentinelLoop (inits calls : List Operation) (ret : Operation) (sentinel : Slot) : Graph where
  blocks :=
    [⟨"prologue", inits⟩, ⟨"loop-entry", []⟩, ⟨"loop-body", calls⟩, ⟨"epilogue", [ret]⟩]
  edges :=
    [⟨0, 3, .ifZero sentinel⟩, ⟨0, 1, .always⟩, ⟨1, 2, .always⟩, ⟨2, 3, .ifZero sentinel⟩,
      ⟨2, 1, .always⟩]
  entry := 0
  exit := 3

/-- Whether a number is that of a block. -/
def hasBlock (g : Graph) (v : Nat) : Bool :=
  v < g.blocks.length

/-- The edges that leave a block, in the order in which they are tried. -/
def successors (g : Graph) (v : Nat) : List Edge :=
  g.edges.filter fun e => e.source == v

/-- The numbers of the blocks that the edges of a block lead to. -/
def targets (g : Graph) (v : Nat) : List Nat :=
  (g.successors v).map Edge.target

/-- The numbers of the blocks with an edge to a block. -/
def sources (g : Graph) (v : Nat) : List Nat :=
  (g.edges.filter fun e => e.target == v).map Edge.source

/-- The slots that the edges of a block wait for, in order. -/
def conditions (g : Graph) (v : Nat) : List Slot :=
  (g.successors v).filterMap fun e => e.trigger.slot?

/-- The block after a block if no condition holds. -/
def fallthrough? (g : Graph) (v : Nat) : Option Nat :=
  ((g.successors v).find? fun e => e.trigger.isAlways).map Edge.target

/-- The operations of a block. -/
def operations (g : Graph) (v : Nat) : List Operation :=
  match g.blocks[v]? with
  | some b => b.operations
  | none => []

-- ============================================================ its text

/-- How an edge is written below its block. -/
def edgeText (e : Edge) : String :=
  match e.trigger with
  | .always => "    -> " ++ blockName e.target ++ "\n"
  | .ifZero s => "    -> " ++ blockName e.target ++ " if $" ++ toString s.index ++ " == 0\n"

/-- What a block is to the graph. -/
def role (g : Graph) (v : Nat) : String :=
  if v = g.entry then " (entry)" else if v = g.exit then " (exit)" else ""

/-- How a block is written: its head, its operations and its edges. -/
def blockText (g : Graph) (b : Block) (v : Nat) : String :=
  blockName v ++ " " ++ b.name ++ g.role v ++ ":\n"
    ++ String.join (b.operations.map fun op => "    " ++ op.text ++ "\n")
    ++ String.join ((g.successors v).map edgeText)

/-- How a graph is written. -/
def text (g : Graph) : String :=
  String.join (g.blocks.zipIdx.map fun (b, v) => g.blockText b v)

end Graph

end CallFlow
