/-
Stack typing: which bodies a stack machine admits without running them.

The rules are those by which a reader of the binary format validates a body, for
the instructions that there are. Typing goes through the instructions in order and
keeps the types of the operands. A block or a loop starts with no operands of its
own and must end with none, so what is below them is put aside and taken up again
behind them. Behind a return control cannot go on; the operands there are not known,
and dead code may take values of any types.

Everything is read off the sections of a binary: the type of a callable function is
the entry of the type section that its import or its function entry selects, and the
locals of a body are the parameters of its type and then the expanded runs. Nothing
here knows of the code that a binary was made from.
-/
import CallFlow.Wasm.Binary

namespace CallFlow.Wasm

-- ============================================================= operands

/-- What is known of the operands of the innermost block: their types,
the top first, and whether control cannot come here. -/
structure Operands where
  types : List ValueType := []
  dead : Bool := false
  deriving DecidableEq

namespace Operands

/-- Takes an operand of a type from the top. Dead code finds one of any
type where there is none. -/
def pop (o : Operands) (t : ValueType) : Option Operands :=
  match o.types with
  | u :: types => if u = t then some { o with types } else none
  | [] => if o.dead then some o else none

/-- Takes operands of the given types, the first of them from the top. -/
def popAll (o : Operands) (ts : List ValueType) : Option Operands :=
  ts.foldlM pop o

/-- Takes operands of some types and leaves others, the first of them on
top. -/
def replace (o : Operands) (taken left : List ValueType) : Option Operands :=
  (o.popAll taken).map fun o => { o with types := left ++ o.types }

/-- Operands that are there can be taken. -/
theorem popAll_append (ts below : List ValueType) (dead : Bool) :
    popAll ⟨ts ++ below, dead⟩ ts = some ⟨below, dead⟩ := by
  induction ts with
  | nil => rfl
  | cons t ts ih =>
    have hpop : pop ⟨t :: ts ++ below, dead⟩ t = some ⟨ts ++ below, dead⟩ := if_pos rfl
    rw [popAll, List.foldlM_cons, hpop]
    exact ih

/-- Operands that are on top in the right order can be taken off and
replaced, whatever lies below. -/
theorem replace_append (taken left below : List ValueType) (dead : Bool) :
    replace ⟨taken ++ below, dead⟩ taken left = some ⟨left ++ below, dead⟩ := by
  rw [replace, popAll_append]
  rfl

end Operands

-- ========================================================= instructions

/-- The operands of the innermost block, and those put aside for the
blocks around it, innermost first. -/
structure TypeState where
  operands : Operands := {}
  outer : List Operands := []
  deriving DecidableEq

/-- What the typing of a body depends on besides its instructions. -/
structure Context where
  locals : List ValueType
  callee? : Nat → Option FunctionType
  results : List ValueType

/-- An instruction that takes operands and leaves others. -/
def TypeState.replace (s : TypeState) (taken left : List ValueType) : Option TypeState :=
  (s.operands.replace taken left).map fun operands => { s with operands }

/-- The start of a block. -/
def TypeState.enter (s : TypeState) : TypeState where
  outer := s.operands :: s.outer

/-- The end of a block, which must have used up its operands. -/
def TypeState.leave (s : TypeState) : Option TypeState :=
  match s.outer with
  | operands :: outer => if s.operands.types = [] then some { operands, outer } else none
  | [] => none

namespace Context

/-- What an instruction makes of the operands, if it is well typed.
Memory may be accessed with at most the natural alignment of the type. -/
def step (C : Context) (s : TypeState) : Instruction → Option TypeState
  | .i32Const _ => s.replace [] [.i32]
  | .i64Const _ => s.replace [] [.i64]
  | .f64Const _ => s.replace [] [.f64]
  | .localGet i => do s.replace [] [← C.locals[i]?]
  | .localSet i => do s.replace [← C.locals[i]?] []
  | .call f => do
    let type ← C.callee? f
    s.replace type.params.reverse type.results.reverse
  | .i32Load alignment => if alignment ≤ 2 then s.replace [.i32] [.i32] else none
  | .f64Load alignment => if alignment ≤ 3 then s.replace [.i32] [.f64] else none
  | .i32Store alignment => if alignment ≤ 2 then s.replace [.i32, .i32] [] else none
  | .f64Store alignment => if alignment ≤ 3 then s.replace [.f64, .i32] [] else none
  | .ret => (s.replace C.results.reverse []).map fun s => { s with operands := { dead := true } }
  | .block => some s.enter
  | .loop => some s.enter
  | .stop => s.leave
  | .branchIf depth => if depth < s.outer.length then s.replace [.i32] [] else none
  | .i32Eqz => s.replace [.i32] [.i32]

/-- What instructions in order make of the operands. -/
def run (C : Context) (s : TypeState) (code : List Instruction) : Option TypeState :=
  code.foldlM C.step s

/-- A body is accepted if it is well typed up to its last instruction,
which ends the function, every block is closed there, and control cannot
come there: a return is in front of it. -/
def Accepts (C : Context) (code : List Instruction) : Prop :=
  code.getLast? = some .stop ∧ C.run {} code.dropLast = some { operands := { dead := true } }

instance (C : Context) (code : List Instruction) : Decidable (C.Accepts code) :=
  inferInstanceAs (Decidable (_ ∧ _))

variable {C : Context}

/-- Code is typed in order, so typing can stop and go on anywhere. -/
theorem run_append (s : TypeState) (code code' : List Instruction) :
    C.run s (code ++ code') = (C.run s code).bind fun s' => C.run s' code' :=
  List.foldlM_append

/-- Typing goes on behind code that is well typed. -/
theorem run_append_of_eq {s s' : TypeState} {code : List Instruction}
    (h : C.run s code = some s') (code' : List Instruction) :
    C.run s (code ++ code') = C.run s' code' := by
  rw [run_append, h]
  rfl

theorem run_singleton (s : TypeState) (i : Instruction) : C.run s [i] = C.step s i := by
  show (C.step s i).bind some = C.step s i
  exact Option.bind_fun_some _

/-- An instruction finds its operands on top of the others. -/
theorem replace_of_eq (taken left below : List ValueType) (dead : Bool) (outer : List Operands) :
    TypeState.replace ⟨⟨taken ++ below, dead⟩, outer⟩ taken left
      = some ⟨⟨left ++ below, dead⟩, outer⟩ := by
  rw [TypeState.replace, Operands.replace_append]
  rfl

/-- A body is accepted when its code, without the end that closes it,
comes to a place that control does not reach. -/
theorem accepts_append_stop {code : List Instruction} :
    C.Accepts (code ++ [.stop]) ↔ C.run {} code = some { operands := { dead := true } } := by
  unfold Accepts
  rw [List.getLast?_concat, List.dropLast_concat]
  exact and_iff_right rfl

end Context

-- ============================================================= binaries

/-- The types of runs, one for each local. -/
def expandRuns (runs : List (Nat × ValueType)) : List ValueType :=
  runs.flatMap fun run => List.replicate run.1 run.2

namespace Binary

/-- The places in the type section of the callable functions, by index:
the imports come first. -/
def typeIndices (b : Binary) : List Nat :=
  b.imports.map ImportEntry.type ++ b.functions

/-- The type of a callable function. -/
def callee? (b : Binary) (index : Nat) : Option FunctionType := do
  b.types[← b.typeIndices[index]?]?

/-- What the body of a function of the given type may use. -/
def context (b : Binary) (type : FunctionType) (code : CodeEntry) : Context where
  locals := type.params ++ expandRuns code.locals
  callee? := b.callee?
  results := type.results

/-- Every function has a body, a type and a well-typed body of that
type. -/
structure WellTyped (b : Binary) : Prop where
  length : b.codes.length = b.functions.length
  codes : ∀ i code, b.codes[i]? = some code →
    ∃ type, b.callee? (b.imports.length + i) = some type
      ∧ (b.context type code).Accepts code.instructions

end Binary

end CallFlow.Wasm
