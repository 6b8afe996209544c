/-
Every accepted program becomes well-typed instructions.

What the typing of a binary asks of a module, lowering gives: parameters and variables
hold values, an operation is a statement that leaves none, and a body ends in the
return of its result, outside every block.
-/
import CallFlow.Proofs.Lowering.Encodable
import CallFlow.Proofs.Wasm.Typing

namespace CallFlow

-- ========================================================== statements

/-- Operations are statements that leave no value. -/
theorem areTidy_operations (ops : List Operation) :
    Expr.areTidy (ops.map Operation.toExpr) = true := by
  have hargs : ∀ vs : List Value, Expr.areTidyArgs (vs.map Value.toExpr) = true := by
    intro vs
    induction vs with
    | nil => rfl
    | cons v vs ih =>
      rw [List.map_cons, Expr.areTidyArgs, ih]
      cases v <;> rfl
  induction ops with
  | nil => rfl
  | cons op ops ih =>
    rw [List.map_cons, Expr.areTidy, ih]
    cases op with
    | init slot value => cases value <;> rfl
    | call target f args result =>
      show (true && Expr.areTidyArgs _ && true) = true
      rw [hargs]
      rfl
    | ret slot => rfl

theorem areTidy_append (es es' : List Expr) :
    Expr.areTidy (es ++ es') = (Expr.areTidy es && Expr.areTidy es') := by
  induction es with
  | nil => rfl
  | cons e es ih => rw [List.cons_append, Expr.areTidy, Expr.areTidy, ih, ← Bool.and_assoc]

/-- The statements of a body leave no value, with a guard and without. -/
theorem areTidy_bodyCode (inits calls : List Operation) (guard : Option Slot) (slot : Slot) :
    Expr.areTidy (bodyCode inits calls guard slot) = true := by
  cases guard with
  | none => exact areTidy_operations _
  | some g =>
    have hbranch : ∀ l test, Expr.areTidy [.branchOn l g test] = true := fun _ _ => rfl
    have hloop : ∀ l body, Expr.areTidy [.loop l body] = (Expr.areTidy body && true) :=
      fun _ _ => rfl
    have hblock : ∀ l body e, Expr.areTidy [.block l body, e]
        = (Expr.areTidy body && Expr.areTidy [e]) := fun _ _ _ => rfl
    show Expr.areTidy (Graph.loopCode inits calls (.ret slot) g) = true
    rw [Graph.loopCode, hblock, areTidy_append, areTidy_append, hloop, areTidy_append,
      areTidy_operations, areTidy_operations, hbranch, hbranch]
    rfl

/-- A body ends in the return of its result. -/
theorem endsInReturn_bodyCode (inits calls : List Operation) (guard : Option Slot) (slot : Slot) :
    Wasm.EndsInReturn (bodyCode inits calls guard slot) := by
  cases guard with
  | none =>
    refine ⟨(inits ++ calls).map Operation.toExpr, .ofSlot slot, ?_⟩
    rw [bodyCode, bodyOperations, List.map_append]
    rfl
  | some g => exact ⟨[_], .ofSlot slot, rfl⟩

/-- Values can be stored in all slots of a lowered function. -/
theorem storable_loweredFunction {f : Tree.Function} {inits calls : List Operation}
    {guard : Option Slot} {slot : Slot} (h : f.Declares) :
    ∀ t ∈ (loweredFunction f inits calls guard slot).params
      ++ (loweredFunction f inits calls guard slot).locals, t ≠ .void := by
  intro t ht
  rcases List.mem_append.mp ht with ht | ht
  · obtain ⟨q, hq, rfl⟩ := List.mem_map.mp ht
    exact (h.params q hq).2
  · obtain ⟨d, hd, rfl⟩ := List.mem_map.mp ht
    have hmem : (d.name, d.type) ∈ f.body.vars.map fun v => (v.id.name, v.type) :=
      f.variableDeclarations_perm.mem_iff.mp (List.mem_map_of_mem hd)
    obtain ⟨v, hv, hpair⟩ := List.mem_map.mp hmem
    rw [← (Prod.mk.inj hpair).2]
    exact (h.vars v hv).2

-- ============================================================= modules

section Modules

variable (memory : Memory) {p : Tree.Program} {gs : List Function}

/-- A function of a lowered module is a memory helper or comes from
parts. -/
theorem mem_functions_loweredModule (h : LoweredProgram p gs) {g : Function}
    (hg : g ∈ (loweredModule memory p gs).functions) :
    (∃ b : Builtin, g = b.toFunction)
      ∨ ∃ f inits calls guard slot,
          LoweredParts { entries := p.callables } f inits calls guard slot
            ∧ g = loweredFunction f inits calls guard slot := by
  rcases List.mem_append.mp hg with hbuiltin | huser
  · obtain ⟨b, -, rfl⟩ := List.mem_map.mp hbuiltin
    exact .inl ⟨b, rfl⟩
  · obtain ⟨f, -, hlowered⟩ := exists_left_of_forall₂ h.functions huser
    obtain ⟨inits, calls, guard, slot, hparts, rfl⟩ := outcome_lowerFunction_eq_ok.mp hlowered
    exact .inr ⟨f, inits, calls, guard, slot, hparts, rfl⟩

/-- Values can be stored in all slots of a lowered module and passed in
all its calls. -/
theorem storable_loweredModule (h : LoweredProgram p gs) :
    (loweredModule memory p gs).Storable := by
  constructor
  · intro i hi t ht
    obtain ⟨i', -, rfl⟩ := List.mem_map.mp hi
    exact ValueType.isStorable_eq_true.mp (List.mem_filter.mp ht).2
  · intro g hg t ht
    rcases mem_functions_loweredModule memory h hg with
      ⟨b, rfl⟩ | ⟨f, inits, calls, guard, slot, hparts, rfl⟩
    · revert t
      cases b <;> decide
    · exact storable_loweredFunction hparts.declares t ht

/-- The statements of a lowered module leave no value. -/
theorem areTidy_loweredModule (h : LoweredProgram p gs) :
    ∀ g ∈ (loweredModule memory p gs).functions, Expr.areTidy g.body = true := by
  intro g hg
  rcases mem_functions_loweredModule memory h hg with
    ⟨b, rfl⟩ | ⟨f, inits, calls, guard, slot, -, rfl⟩
  · cases b <;> rfl
  · exact areTidy_bodyCode inits calls guard slot

/-- The bodies of a lowered module end in a return. -/
theorem endsInReturn_loweredModule (h : LoweredProgram p gs) :
    ∀ g ∈ (loweredModule memory p gs).functions, Wasm.EndsInReturn g.body := by
  intro g hg
  rcases mem_functions_loweredModule memory h hg with
    ⟨b, rfl⟩ | ⟨f, inits, calls, guard, slot, -, rfl⟩
  · cases b with
    | storeI32 => exact ⟨[_], _, rfl⟩
    | storeF64 => exact ⟨[_], _, rfl⟩
    | loadI32 => exact ⟨[], _, rfl⟩
    | loadF64 => exact ⟨[], _, rfl⟩
  · exact endsInReturn_bodyCode inits calls guard slot

end Modules

/-- Every accepted program becomes well-typed instructions: each
function of its binary has a body that the typing rules accept for the
type that its entry selects, and in no run, whatever calls are answered
and whatever the slots and the memory hold, does control come to the end
of a function; it only leaves by a return. -/
theorem lower_emit_wellTyped {memory : Memory} {p : Tree.Program} {m : Module} {names : Bool}
    {bytes : List UInt8} (hlower : (lower memory p).outcome = .ok m)
    (hemit : (Wasm.emit m names).outcome = .ok bytes) :
    ∃ b, Wasm.binary m names = .ok b ∧ bytes = b.encode ∧ b.WellTyped
      ∧ b.codes.length = m.functions.length
      ∧ ∀ code ∈ b.codes, ∀ (σ : Type) (M : Wasm.Machine σ) (s : State (List Constant) σ) n c,
          M.Reaches n (Wasm.start code.instructions s) c → c.code ≠ [.stop] := by
  obtain ⟨gs, hprogram, rfl⟩ := outcome_lowerProgram_eq_ok.mp hlower
  obtain ⟨b, hb, hbytes⟩ := Wasm.outcome_emit_eq_ok.mp hemit
  have hreturn := endsInReturn_loweredModule memory hprogram
  have htyped := Wasm.wellTyped_of_binary hb (storable_loweredModule memory hprogram)
    (areTidy_loweredModule memory hprogram) hreturn
  refine ⟨b, hb, hbytes, htyped, ?_, ?_⟩
  · exact (Wasm.linked_of_binary hb).codes.length_eq.symm
  · intro code hcode σ M s n c hreach
    obtain ⟨g, hg, hentry⟩ := exists_left_of_forall₂ (Wasm.linked_of_binary hb).codes hcode
    exact hreach.code_ne_stop (Wasm.ahead_start (hreturn g hg) hentry s)

/-- A program with a loop whose guard steps down by calls to an import. -/
def Tree.Program.steps : Tree.Program where
  imports := [{ id := { name := "step" }, module := "env", base := "step"
                params := [.i32, .void], result := .i32 }]
  functions := [{ id := { name := "steps" }
                  params := [{ id := { name := "n" }, type := .i32 }]
                  result := .i32
                  body := { vars := [{ id := { name := "k" }, type := .i32
                                       init := some (.reference "n") }]
                            loop := some
                              { condition := { name := "k" }
                                calls := [{ target := { name := "k" }, callee := { name := "step" }
                                            args := [.reference "k"] }] } } }]
  exports := [{ id := { name := "steps" }, name := "steps" }]

/-- The instructions of `steps`. -/
def stepsCode : List Wasm.Instruction :=
  [.block, .localGet 0, .localSet 1, .localGet 1, .i32Eqz, .branchIf 0,
    .loop, .localGet 1, .call 0, .localSet 1, .localGet 1, .branchIf 0, .stop,
    .stop, .localGet 1, .ret, .stop]

/-- The binary of `steps` is well typed, and its last body has a block
and a loop. -/
theorem steps_wellTyped :
    ∃ (m : Module) (b : Wasm.Binary), (lower {} .steps).outcome = .ok m
      ∧ (Wasm.emit m true).outcome = .ok b.encode ∧ b.WellTyped
      ∧ b.codes.getLast?.map Wasm.CodeEntry.instructions = some stepsCode := by
  obtain ⟨m, b, hm, hb, hcode⟩ : ∃ (m : Module) (b : Wasm.Binary),
      (lower {} .steps).outcome = .ok m ∧ Wasm.binary m true = .ok b
        ∧ b.codes.getLast?.map Wasm.CodeEntry.instructions = some stepsCode :=
    ⟨_, _, rfl, rfl, rfl⟩
  have hemit : (Wasm.emit m true).outcome = .ok b.encode := Wasm.outcome_emit_eq_ok.mpr ⟨b, hb, rfl⟩
  obtain ⟨b', hb', -, htyped, -⟩ := lower_emit_wellTyped hm hemit
  cases hb.symm.trans hb'
  exact ⟨m, b, hm, hemit, htyped, hcode⟩

end CallFlow
