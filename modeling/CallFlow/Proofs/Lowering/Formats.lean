/-
Every accepted program has the same code in both formats.

The labels of a lowered body are its own and plain, and the slots of a function are the
names that it declares, each of them once. So the text of a lowered module can be read
back, whatever characters the names in the program have.
-/
import CallFlow.Proofs.Lowering.WellTyped
import CallFlow.Proofs.Wat.Agreement

namespace CallFlow

open Wat (hasPlainLabels havePlainLabels)

-- ============================================================== labels

theorem havePlainLabels_iff {es : List Expr} :
    havePlainLabels es = true ↔ ∀ e ∈ es, hasPlainLabels e = true := by
  induction es with
  | nil => exact ⟨fun _ => List.forall_mem_nil _, fun _ => rfl⟩
  | cons e es ih => rw [havePlainLabels, Bool.and_eq_true, ih, List.forall_mem_cons]

/-- Operations have no labels. -/
theorem hasPlainLabels_operation (op : Operation) : hasPlainLabels op.toExpr = true := by
  have hvalue : ∀ v : Value, hasPlainLabels v.toExpr = true := by
    intro v
    cases v <;> rfl
  cases op with
  | init slot value => exact hvalue value
  | call target f args result =>
    have hargs : havePlainLabels (args.map Value.toExpr) = true :=
      havePlainLabels_iff.mpr (List.forall_mem_map.mpr fun v _ => hvalue v)
    exact hargs
  | ret slot => rfl

/-- The labels of a body are plain, with a guard and without. There are
only two labels that lowering ever writes, and both are plain. -/
theorem havePlainLabels_bodyCode (inits calls : List Operation) (guard : Option Slot)
    (slot : Slot) : havePlainLabels (bodyCode inits calls guard slot) = true := by
  have hops : ∀ ops : List Operation, ∀ e ∈ ops.map Operation.toExpr, hasPlainLabels e = true :=
    fun ops => List.forall_mem_map.mpr fun op _ => hasPlainLabels_operation op
  cases guard with
  | none => exact havePlainLabels_iff.mpr (hops _)
  | some g =>
    have hexit : hasPlainLabels (.branchOn Graph.exitLabel g .zero) = true := rfl
    have hrepeat : hasPlainLabels (.branchOn Graph.loopLabel g .nonzero) = true := rfl
    have hloop : hasPlainLabels (.loop Graph.loopLabel (calls.map Operation.toExpr
        ++ [.branchOn Graph.loopLabel g .nonzero])) = true := by
      rw [hasPlainLabels, Bool.and_eq_true, havePlainLabels_iff, List.forall_mem_append,
        List.forall_mem_singleton]
      exact ⟨rfl, hops calls, hrepeat⟩
    have hblock : hasPlainLabels (.block Graph.exitLabel (inits.map Operation.toExpr
        ++ [.branchOn Graph.exitLabel g .zero] ++ [.loop Graph.loopLabel
          (calls.map Operation.toExpr ++ [.branchOn Graph.loopLabel g .nonzero])])) = true := by
      rw [hasPlainLabels, Bool.and_eq_true, havePlainLabels_iff, List.forall_mem_append,
        List.forall_mem_append, List.forall_mem_singleton, List.forall_mem_singleton]
      exact ⟨rfl, ⟨hops inits, hexit⟩, hloop⟩
    rw [havePlainLabels_iff, bodyCode, Graph.loopCode, List.forall_mem_cons,
      List.forall_mem_singleton]
    exact ⟨hblock, hasPlainLabels_operation (.ret slot)⟩

-- ============================================================= modules

/-- The text of a lowered module can be read back. -/
theorem readable_loweredModule (memory : Memory) {p : Tree.Program} {gs : List Function}
    (h : LoweredProgram p gs) : Wat.Readable (loweredModule memory p gs) := by
  constructor
  · intro g hg
    rcases mem_functions_loweredModule memory h hg with
      ⟨b, rfl⟩ | ⟨f, inits, calls, guard, slot, -, rfl⟩
    · cases b <;> rfl
    · exact havePlainLabels_bodyCode inits calls guard slot
  · intro g hg
    rcases mem_functions_loweredModule memory h hg with
      ⟨b, rfl⟩ | ⟨f, inits, calls, guard, slot, hparts, rfl⟩
    · cases b <;> decide
    · show f.layout.names.Nodup
      rw [Tree.Function.layout, SymbolTable.names_pushAll]
      exact hparts.declares.nodup_declarations

/-- The text and the binary of an accepted program have the same code.
The text is read back as fields. Each function among them, in order, is
unfolded to the instructions of an entry of the binary without the end
that closes it, doubles being read from their texts: if these are read
as what they were written for, it is exactly the code of the entry.
Different functions have different symbols, and so have the slots of a
function. -/
theorem lower_emit_same_code {memory : Memory} {p : Tree.Program} {m : Module} {names : Bool}
    {text : String} {bytes : List UInt8} (hlower : (lower memory p).outcome = .ok m)
    (htext : (Wat.emit m).outcome = .ok text) (hbytes : (Wasm.emit m names).outcome = .ok bytes) :
    ∃ b fields, Wasm.binary m names = .ok b ∧ bytes = b.encode
      ∧ Wat.module? text = some fields
      ∧ Wat.identifiers fields = m.callables.map Text.utf8
      ∧ (Wat.textFunctions fields).map Wat.TextFunction.identifier
          = m.functions.map (fun f => Text.utf8 f.name)
      ∧ List.Forall₂ (fun (t : Wat.TextFunction) (entry : Wasm.CodeEntry) =>
          ∃ code, entry.instructions = code ++ [.stop] ∧ ∀ double?,
            t.unfolded double? fields = code.mapM (Wat.reread double?)
              ∧ ((∀ v, .f64Const v ∈ code → double? (Layout.wat.text v) = some v) →
                  t.unfolded double? fields = some code))
          (Wat.textFunctions fields) b.codes
      ∧ (Function.Injective fun name => (Wat.symbol name).text)
      ∧ ∀ f ∈ m.functions, Function.Injective fun i => (Wat.slot f i).text := by
  obtain ⟨gs, hprogram, rfl⟩ := outcome_lowerProgram_eq_ok.mp hlower
  have hreadable := readable_loweredModule memory hprogram
  obtain ⟨-, rfl⟩ := Wat.outcome_emit_eq_ok.mp htext
  obtain ⟨b, hb, rfl⟩ := Wasm.outcome_emit_eq_ok.mp hbytes
  refine ⟨b, _, hb, rfl, Wat.module?_document hreadable, Wat.identifiers_fields _, ?_, ?_,
    Wat.symbol_text_injective, ?_⟩
  · rw [Wat.textFunctions_fields, List.map_map]
    rfl
  · refine (Wat.sameCode_fields hreadable hb).imp ?_
    rintro t entry ⟨code, hentry, hcode⟩
    refine ⟨code, hentry, fun double? => ⟨hcode double?, fun hread => ?_⟩⟩
    rw [hcode double?, Wat.mapM_reread hread]
  · intro f hf i j hij
    exact Wat.slotWord_inj (hreadable.slots f hf) hij

/-- A program with a loop, a double and names that are not plain. -/
def Tree.Program.zaehler : Tree.Program where
  imports := [{ id := { name := "nächster Wert" }, module := "env", base := "next"
                params := [.i32], result := .i32 }]
  functions := [{ id := { name := "zähler" }
                  params := [{ id := { name := "größe" }, type := .i32 }]
                  result := .i32
                  body := { vars := [{ id := { name := "x" }, type := .f64
                                       init := some (.float ⟨0x3FF8000000000000⟩) },
                                     { id := { name := "k" }, type := .i32
                                       init := some (.reference "größe") }]
                            loop := some
                              { condition := { name := "k" }
                                calls := [{ target := { name := "k" }
                                            callee := { name := "nächster Wert" }
                                            args := [.reference "k"] }] } } }]
  exports := [{ id := { name := "zähler" }, name := "zähler" }]

/-- The instructions of `zaehler`. -/
def zaehlerCode : List Wasm.Instruction :=
  [.block, .f64Const ⟨0x3FF8000000000000⟩, .localSet 1, .localGet 0, .localSet 2,
    .localGet 2, .i32Eqz, .branchIf 0,
    .loop, .localGet 2, .call 0, .localSet 2, .localGet 2, .branchIf 0, .stop,
    .stop, .localGet 2, .ret]

/-- The last function in the text of `zaehler` has the code of its
binary. -/
theorem zaehler_same_code :
    ∃ (m : Module) (text : String) (bytes : List UInt8) (fields : List Wat.Sexp),
      (lower {} .zaehler).outcome = .ok m ∧ (Wat.emit m).outcome = .ok text
        ∧ (Wasm.emit m true).outcome = .ok bytes ∧ Wat.module? text = some fields
        ∧ ∃ t, (Wat.textFunctions fields).getLast? = some t
          ∧ ∀ double?, double? (Layout.wat.text ⟨0x3FF8000000000000⟩)
                = some ⟨0x3FF8000000000000⟩ →
              t.unfolded double? fields = some zaehlerCode := by
  obtain ⟨m, b, hm, hvalid, hb, hcodes⟩ : ∃ (m : Module) (b : Wasm.Binary),
      (lower {} .zaehler).outcome = .ok m ∧ m.validate = .ok () ∧ Wasm.binary m true = .ok b
        ∧ ∃ first entry, b.codes = first ++ [entry]
          ∧ entry.instructions = zaehlerCode ++ [.stop] :=
    ⟨_, _, rfl, rfl, rfl, [_, _, _, _], _, rfl, rfl⟩
  have htext : (Wat.emit m).outcome = .ok _ := Wat.outcome_emit_eq_ok.mpr ⟨hvalid, rfl⟩
  have hbytes : (Wasm.emit m true).outcome = .ok _ := Wasm.outcome_emit_eq_ok.mpr ⟨b, hb, rfl⟩
  obtain ⟨b', fields, hb', -, hfields, -, -, hsame, -⟩ := lower_emit_same_code hm htext hbytes
  cases hb.symm.trans hb'
  obtain ⟨first, entry, hlast, hentry⟩ := hcodes
  rw [hlast, ← List.forall₂_reverse_iff, List.reverse_append] at hsame
  obtain ⟨t, rest, ⟨code, hcode, hunfolded⟩, -, hfunctions⟩ := List.forall₂_cons_right_iff.mp hsame
  have hlastFunction : (Wat.textFunctions fields).getLast? = some t := by
    rw [← List.head?_reverse, hfunctions]
    rfl
  obtain rfl : code = zaehlerCode := List.append_cancel_right (hcode.symm.trans hentry)
  refine ⟨m, _, _, fields, hm, htext, hbytes, hfields, t, hlastFunction, ?_⟩
  intro double? hread
  refine (hunfolded double?).2 fun v hv => ?_
  have hv : v = ⟨0x3FF8000000000000⟩ := by simpa [zaehlerCode] using hv
  rw [hv, hread]

end CallFlow
