/-
When a source text can be built.

Three formats are written from one module, and each of them asks for a valid module first.
Whatever could still go wrong behind the checks is looked at here: the code of a checked
body always has its indices and depths (by induction over the code), and so has every
checked export. What is left is one bound that only the binary format has, on the offset of
a segment. So a build succeeds exactly when the check of the same text does and, for the
binary, no segment starts in the upper half of the address space.
-/
import CallFlow.Compilation
import CallFlow.Proofs.Lowering.Programs
import CallFlow.Proofs.Wasm.Meaning
import CallFlow.Proofs.Wasm.Sections
import CallFlow.Proofs.Wat.Agreement

namespace CallFlow

-- ================================================== code of checked bodies

namespace Wasm

open CallFlow.Expr (check checkAll)

variable {m : Module} {f : Function}

mutual

/-- A checked expression has instructions: its callees have indices, and
its labels have depths. There is no other way for it to have none. The
recursion is over the expression. -/
theorem exists_instructions {labels : List String} :
    ∀ e, check m f labels e = .ok () → ∃ code, instructions m.index? labels e = .ok code
  | .const c, _ => ⟨[constantOf c], rfl⟩
  | .get i t, _ => ⟨[.localGet i], rfl⟩
  | .set i v, h => by
    obtain ⟨code, hcode⟩ := exists_instructions v (Expr.check_set.mp h).2
    exact ⟨code ++ [.localSet i], by rw [instructions, hcode]; rfl⟩
  | .call g args result, h => by
    obtain ⟨hsignature, hargs⟩ := Expr.check_call.mp h
    obtain ⟨i, hindex, -⟩ := exists_callee hsignature
    obtain ⟨code, hcode⟩ := exists_instructionsAll args hargs
    exact ⟨code ++ [.call i], by rw [instructions, hcode, hindex]; rfl⟩
  | .load t a, h => by
    obtain ⟨code, hcode⟩ := exists_instructions a (Expr.check_load.mp h).1
    exact ⟨code ++ [loadOf t], by rw [instructions, hcode]; rfl⟩
  | .store t a v, h => by
    obtain ⟨ha, -, -, hv, -⟩ := Expr.check_store.mp h
    obtain ⟨address, haddress⟩ := exists_instructions a ha
    obtain ⟨value, hvalue⟩ := exists_instructions v hv
    exact ⟨address ++ value ++ [storeOf t], by rw [instructions, haddress, hvalue]; rfl⟩
  | .returnValue v, h => by
    obtain ⟨code, hcode⟩ := exists_instructions v (Expr.check_returnValue.mp h).1
    exact ⟨code ++ [.ret], by rw [instructions, hcode]; rfl⟩
  | .returnNone, _ => ⟨[.ret], rfl⟩
  | .block l body, h => by
    obtain ⟨code, hcode⟩ := exists_instructionsAll body h
    exact ⟨.block :: code ++ [.stop], by rw [instructions, hcode]; rfl⟩
  | .loop l body, h => by
    obtain ⟨code, hcode⟩ := exists_instructionsAll body h
    exact ⟨.loop :: code ++ [.stop], by rw [instructions, hcode]; rfl⟩
  | .branchIf l c test, h => by
    obtain ⟨hl, hc, -⟩ := Expr.check_branchIf.mp h
    obtain ⟨depth, hdepth⟩ := exists_depth hl
    obtain ⟨code, hcode⟩ := exists_instructions c hc
    cases test with
    | zero => exact ⟨code ++ [.i32Eqz, .branchIf depth], by rw [instructions, hdepth, hcode]; rfl⟩
    | nonzero => exact ⟨code ++ [.branchIf depth], by rw [instructions, hdepth, hcode]; rfl⟩

theorem exists_instructionsAll {labels : List String} :
    ∀ es, checkAll m f labels es = .ok () → ∃ code, instructionsAll m.index? labels es = .ok code
  | [], _ => ⟨[], rfl⟩
  | e :: es, h => by
    obtain ⟨he, hes⟩ := Expr.checkAll_cons.mp h
    obtain ⟨code, hcode⟩ := exists_instructions e he
    obtain ⟨rest, hrest⟩ := exists_instructionsAll es hes
    exact ⟨code ++ rest, by rw [instructionsAll, hcode, hrest]; rfl⟩

end

/-- Every function of a valid module has code. -/
theorem exists_functionCode (hvalid : m.validate = .ok ()) (hf : f ∈ m.functions) :
    ∃ entry, functionCode (indexMap m) f = .ok entry := by
  have hbodies := Module.checkBodies_eq_ok.mp (Module.validate_eq_ok.mp hvalid).2.2.2
  obtain ⟨code, hcode⟩ := exists_instructionsAll f.body (hbodies f hf)
  rw [← get?_indexMap hvalid] at hcode
  exact ⟨_, functionCode_eq_ok.mpr ⟨code, hcode, rfl⟩⟩

/-- Every export of a valid module has an entry. -/
theorem exists_exportEntry (hvalid : m.validate = .ok ()) {e : Export} (he : e ∈ m.exports) :
    ∃ entry, ExportEntry.Of m e entry := by
  have hexports := (Module.checkExports_eq_ok.mp (Module.validate_eq_ok.mp hvalid).2.2.1).1
  obtain ⟨i, hi⟩ := exists_depth (hexports e he)
  exact ⟨_, i, (m.index?_eq e.function).trans hi, rfl⟩

/-- The sections of a valid module can be linked: no index is missing. -/
theorem exists_link (hvalid : m.validate = .ok ()) : ∃ b, link m = .ok b := by
  obtain ⟨answered, codes, types, hcodes⟩ :=
    exists_functionEntries (fun f hf => exists_functionCode hvalid hf)
      (importEntries {} m.imports).2
  obtain ⟨exports, hexports⟩ := exists_forall₂.mpr fun e he => exists_exportEntry hvalid he
  exact ⟨_, link_eq_ok.mpr ⟨answered, codes, types, exports, hcodes,
    (exportEntries_eq_ok hvalid).mpr hexports, rfl⟩⟩

/-- A valid module has a binary exactly when the offsets of its segments
are nonnegative as signed numbers. -/
theorem emit_succeeds_iff (names : Bool) :
    (∃ bytes, (emit m names).outcome = .ok bytes) ↔
      m.validate = .ok () ∧ ∀ s ∈ m.memory.segments, s.offset < 0x80000000 := by
  refine ⟨fun h => ?_, fun h => ?_⟩
  · obtain ⟨bytes, hbytes⟩ := h
    obtain ⟨b, hb, -⟩ := outcome_emit_eq_ok.mp hbytes
    obtain ⟨hvalid, hoffsets, -⟩ := binary_eq_ok.mp hb
    exact ⟨hvalid, hoffsets⟩
  · obtain ⟨hvalid, hoffsets⟩ := h
    obtain ⟨linked, hlink⟩ := exists_link hvalid
    have hb : binary m names = .ok (linked.completed m names) :=
      binary_eq_ok.mpr ⟨hvalid, hoffsets, linked, hlink, rfl⟩
    exact ⟨_, outcome_emit_eq_ok.mpr ⟨_, hb, rfl⟩⟩

end Wasm

-- ============================================================ the formats

theorem Wat.emit_succeeds_iff {m : Module} :
    (∃ text, (Wat.emit m).outcome = .ok text) ↔ m.validate = .ok () := by
  simp [Wat.outcome_emit_eq_ok]

namespace Module

theorem accept_eq_ok {m : Module} {u : Unit} : m.accept = .ok u ↔ m.validate = .ok () := by
  unfold accept
  cases m.validate <;> simp [Except.mapError]

/-- A module has an output in a format exactly when it is valid; the
binary format bounds the offsets of the segments as well. -/
theorem emit_succeeds_iff (m : Module) (kind : EmitKind) :
    (∃ bytes, m.emit kind = .ok bytes) ↔
      m.validate = .ok ()
        ∧ (kind = .wasm → ∀ s ∈ m.memory.segments, s.offset < 0x80000000) := by
  cases kind with
  | wasm => simpa [emit] using Wasm.emit_succeeds_iff true
  | wat =>
    rw [← Wat.emit_succeeds_iff]
    unfold emit
    cases (Wat.emit m).outcome <;> simp [Except.map]
  | ir =>
    unfold emit
    simp [-bind_pure_comp, accept_eq_ok]

end Module

-- ============================================================ the sources

/-- A stage only puts its name on an error, so it has a result exactly
when its work has it. -/
@[simp]
theorem Stage.outcome_eq_ok {α : Type} {stage : Stage} {x : Except Error α} {a : α} :
    stage.outcome x = .ok a ↔ x = .ok a := by
  unfold Stage.outcome
  cases x <;> simp [Except.mapError]

/-- The memory of a module is the one that it was lowered with. -/
theorem memory_of_moduleOf {memory : Memory} {text : String} {m : Module}
    (h : moduleOf memory text = .ok m) : m.memory = memory := by
  simp only [moduleOf, bind_eq_ok, Stage.outcome_eq_ok] at h
  obtain ⟨p, -, hlower⟩ := h
  obtain ⟨gs, -, rfl⟩ := outcome_lowerProgram_eq_ok.mp hlower
  rfl

/-- A source is checked by making its module and then checking that. -/
theorem checkSource_eq_ok {memory : Memory} {text : String} {m : Module} :
    checkSource memory text = .ok m ↔ moduleOf memory text = .ok m ∧ m.validate = .ok () := by
  simp only [checkSource, bind_eq_ok, Stage.outcome_eq_ok, Module.accept_eq_ok, pure_eq_ok]
  refine ⟨fun h => ?_, fun h => ?_⟩
  · obtain ⟨m', hm, _, hvalid, rfl⟩ := h
    exact ⟨hm, hvalid⟩
  · exact ⟨m, h.1, (), h.2, rfl⟩

/-- A source can be built in a format exactly when it passes the check
with the same memory, and, if the format is the binary one, no segment
of the memory has an offset of `2 ^ 31` or more. -/
theorem buildSource_succeeds_iff (memory : Memory) (kind : EmitKind) (text : String) :
    (∃ bytes, buildSource memory kind text = .ok bytes) ↔
      (∃ m, checkSource memory text = .ok m)
        ∧ (kind = .wasm → ∀ s ∈ memory.segments, s.offset < 0x80000000) := by
  simp only [buildSource, bind_eq_ok, Stage.outcome_eq_ok, checkSource_eq_ok]
  refine ⟨fun h => ?_, fun h => ?_⟩
  · obtain ⟨bytes, m, hm, hbytes⟩ := h
    obtain ⟨hvalid, hoffsets⟩ := (m.emit_succeeds_iff kind).mp ⟨bytes, hbytes⟩
    rw [memory_of_moduleOf hm] at hoffsets
    exact ⟨⟨m, hm, hvalid⟩, hoffsets⟩
  · obtain ⟨⟨m, hm, hvalid⟩, hoffsets⟩ := h
    rw [← memory_of_moduleOf hm] at hoffsets
    obtain ⟨bytes, hbytes⟩ := (m.emit_succeeds_iff kind).mpr ⟨hvalid, hoffsets⟩
    exact ⟨bytes, m, hm, hbytes⟩

/-- A memory of more than two gibibytes, with one byte in its upper
half. -/
def Memory.upperHalf : Memory where
  initialPages := 32769
  maximumPages := 65536
  segments := [⟨0x80000000, [0x2A]⟩]

/-- The text of the empty program. -/
def emptySource : String :=
  "\x7b\"type\":\"Root\"\x7d"

/-- The empty program passes the check with a segment in the upper half
of its memory, and can be built as text and as a listing, but not as a
binary. -/
theorem upperHalf_checked_not_built :
    (∃ m, checkSource .upperHalf emptySource = .ok m)
      ∧ (∃ bytes, buildSource .upperHalf .wat emptySource = .ok bytes)
      ∧ (∃ bytes, buildSource .upperHalf .ir emptySource = .ok bytes)
      ∧ buildSource .upperHalf .wasm emptySource
          = .error ⟨.generation, .invalidModule (.offsetTooLarge 0x80000000)⟩ := by
  have hread : readSource emptySource = .ok {} := by
    have hsome : (readSource emptySource).toOption = some {} := by decide +kernel
    cases h : readSource emptySource with
    | error e =>
      rw [h] at hsome
      cases hsome
    | ok p =>
      rw [h] at hsome
      rw [Option.some.inj hsome]
  obtain ⟨m, hm, hvalid, hwasm⟩ : ∃ m, moduleOf .upperHalf emptySource = .ok m
      ∧ m.validate = .ok ()
      ∧ m.emit .wasm = .error (.invalidModule (.offsetTooLarge 0x80000000)) := by
    unfold moduleOf
    rw [hread]
    exact ⟨_, rfl, rfl, rfl⟩
  have hbuild : ∀ kind, kind ≠ .wasm →
      ∃ bytes, buildSource .upperHalf kind emptySource = .ok bytes := by
    intro kind hkind
    obtain ⟨bytes, hbytes⟩ := (m.emit_succeeds_iff kind).mpr ⟨hvalid, fun h => absurd h hkind⟩
    simp only [buildSource, bind_eq_ok, Stage.outcome_eq_ok]
    exact ⟨bytes, m, hm, hbytes⟩
  refine ⟨⟨m, checkSource_eq_ok.mpr ⟨hm, hvalid⟩⟩, hbuild .wat (by decide),
    hbuild .ir (by decide), ?_⟩
  unfold buildSource
  rw [hm]
  show Stage.generation.outcome (m.emit .wasm) = _
  rw [hwasm]
  rfl

end CallFlow
