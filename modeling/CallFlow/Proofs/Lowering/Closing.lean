/-
Which functions of a valid module leave no values and come to a return.

Validity alone does not see to it: a block may hold a lone constant, and a function with a result
may have no return at all. What is missing is on the code itself. If its statements have the type
`void`, they leave no values, and no weaker condition will do; if control cannot go on behind its
body, no run comes to its end. Lowering gives both, to the functions of a program and to the memory
helpers, so a lowered module needs no check for them.
-/
import CallFlow.Proofs.Code.Completion
import CallFlow.Proofs.Lowering.WellTyped

namespace CallFlow

/-- Control cannot go on behind a return at the end of a body. -/
theorem Wasm.EndsInReturn.completeAll {body : List Expr} (h : EndsInReturn body) :
    Expr.completeAll body = false := by
  obtain ⟨es, v, rfl⟩ := h
  rw [Expr.completeAll_append]
  exact Bool.and_false _

/-- In a module that is valid, a function whose statements have the type
`void` leaves no values, and that is also what it takes where all slots
hold values; and a function behind whose body control cannot go on never
runs off its end. The functions of every lowered module do neither. -/
theorem validate_closes {m : Module} (hvalid : m.validate = .ok ()) :
    (∀ f ∈ m.functions,
        ((∀ e ∈ Expr.statements f.body, e.type = .void) → f.LeavesNoValue)
          ∧ (m.Storable → f.LeavesNoValue → ∀ e ∈ Expr.statements f.body, e.type = .void)
          ∧ (Expr.completeAll f.body = false → f.NeverRunsOff))
      ∧ ∀ memory p, (lower memory p).outcome = .ok m →
          ∀ f ∈ m.functions, f.LeavesNoValue ∧ f.NeverRunsOff := by
  have hbodies := Module.checkBodies_eq_ok.mp (Module.validate_eq_ok.mp hvalid).2.2.2
  refine ⟨fun f hf => ⟨?_, ?_, ?_⟩, fun memory p hlower f hf => ?_⟩
  · exact Function.leavesNoValue_of_void (hbodies f hf)
  · exact fun hm => Function.void_of_leavesNoValue hm hf (hbodies f hf)
  · exact Function.neverRunsOff_of_completeAll
  · obtain ⟨gs, hprogram, rfl⟩ := outcome_lowerProgram_eq_ok.mp hlower
    have htidy := areTidy_loweredModule memory hprogram f hf
    have hreturn := endsInReturn_loweredModule memory hprogram f hf
    exact ⟨Function.leavesNoValue_of_void (hbodies f hf) ((Expr.areTidy_iff f.body).mp htidy),
      Function.neverRunsOff_of_completeAll hreturn.completeAll⟩

/-- The functions of `steps`, one of which loops, leave no values and
come to a return. -/
theorem steps_close :
    ∃ m : Module, (lower {} .steps).outcome = .ok m ∧ m.validate = .ok ()
      ∧ m.functions.length = 5
      ∧ ∀ f ∈ m.functions, f.LeavesNoValue ∧ f.NeverRunsOff := by
  obtain ⟨m, hm, hvalid, hlength⟩ : ∃ m : Module,
      (lower {} .steps).outcome = .ok m ∧ m.validate = .ok () ∧ m.functions.length = 5 :=
    ⟨_, rfl, rfl, rfl⟩
  exact ⟨m, hm, hvalid, hlength, (validate_closes hvalid).2 {} .steps hm⟩

/-- A function with a result, whose only code is a block around a
constant. -/
def Function.unfinished : Function where
  name := "answer"
  params := []
  locals := []
  result := .i32
  body := [.block "out" [.const (.i32 7)]]
  slotNames := []
  kind := .user

/-- The module of that function alone. -/
def Module.unfinished : Module where
  imports := []
  functions := [.unfinished]
  exports := []
  memory := {}

/-- A valid module with a function that leaves a value in a block and
then runs off its end. Its binary is emitted, and is not well typed. -/
theorem unfinished_validated :
    Module.unfinished.validate = .ok ()
      ∧ Function.unfinished ∈ Module.unfinished.functions
      ∧ Function.unfinished.result ≠ .void
      ∧ ¬ Function.unfinished.LeavesNoValue
      ∧ ¬ Function.unfinished.NeverRunsOff
      ∧ ∃ b, Wasm.binary .unfinished true = .ok b ∧ ¬ b.WellTyped := by
  let s : State (List Constant) Unit :=
    { store := [], world := { host := (), memory := ∅, calls := [] } }
  refine ⟨rfl, List.mem_singleton.mpr rfl, nofun, fun h => ?_, fun h => ?_, _, rfl, fun h => ?_⟩
  · have hmem : Expr.const (.i32 7) ∈ Expr.statements Function.unfinished.body :=
      List.mem_cons_of_mem _ List.mem_cons_self
    cases h _ hmem Unit (.zero Unit) 0 s s (some (.i32 7)) rfl rfl
  · exact h Unit (.zero Unit) 0 s s rfl
  · obtain ⟨type, htype, haccepts⟩ := h.codes 0 _ rfl
    cases htype
    exact absurd haccepts (by decide)

end CallFlow
