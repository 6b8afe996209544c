/-
From operations to structured code.

Without a guard the code is the operations in order. With one they are sorted into
the prologue, the repeated calls and the return of a loop graph, which is then
rendered.
-/
import CallFlow.Event
import CallFlow.Graph.Render

namespace CallFlow

/-- The code of a list of operations, and the graph of a guarded one. -/
def reconstruct (operations : List Operation) (guard : Option Slot) :
    Traced (List Expr × Option Graph) :=
  match guard with
  | none => pure (operations.map Operation.toExpr, none)
  | some sentinel =>
    let inits := operations.filter Operation.isInit
    let calls := operations.filter Operation.isCall
    match operations.filter Operation.isRet with
    | [] => .fail (.irreducible .noReturn)
    | [ret] => do
      .report (.reconstructingLoop inits.length calls.length sentinel)
      let graph := Graph.sentinelLoop inits calls ret sentinel
      match graph.render with
      | .error fault => .fail (.irreducible fault)
      | .ok body => pure (body, some graph)
    | _ => .fail (.irreducible .secondReturn)

end CallFlow
