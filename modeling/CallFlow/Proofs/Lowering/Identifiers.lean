/-
The names of a program in its emitted text.

A program may use any text as a name. The text of a program that is accepted is legal exactly as
far as its names allow: an import or a function without a name has an empty identifier, and a
parameter or variable whose name is no plain identifier is declared under a number, which the
format has no place for in a declaration.
-/
import CallFlow.Proofs.Lowering.Formats
import CallFlow.Proofs.Wat.Legality

namespace CallFlow

/-- The slots of a lowered function are named by its parameters and
variables. -/
theorem namesSlot_loweredFunction (f : Tree.Function) (inits calls : List Operation)
    (guard : Option Slot) (slot : Slot) :
    (∀ i < (loweredFunction f inits calls guard slot).slotCount,
        (loweredFunction f inits calls guard slot).NamesSlot i) ↔
      ∀ name ∈ f.declaredNames, Wat.isPlain name = true := by
  have hlength : f.layout.names.length = (loweredFunction f inits calls guard slot).slotCount := by
    rw [Tree.Function.layout, SymbolTable.names_pushAll]
    simp [Function.slotCount, loweredFunction, Tree.Function.declarations]
  rw [Function.namesSlot_iff hlength]
  refine forall_congr' fun name => ?_
  rw [← Tree.Function.mem_names_layout]
  rfl

/-- The slots of the memory helpers have plain names. -/
theorem namesSlot_builtin (b : Builtin) :
    ∀ i < b.toFunction.slotCount, b.toFunction.NamesSlot i := by
  have hlength : b.toFunction.slotNames.length = b.toFunction.slotCount := by
    cases b <;> rfl
  rw [Function.namesSlot_iff hlength]
  cases b <;> decide

/-- The slots of a lowered module have names that can be written exactly
if the declared names of its functions can be written. -/
theorem namesSlot_loweredModule (memory : Memory) {p : Tree.Program} {gs : List Function}
    (h : LoweredProgram p gs) :
    (∀ g ∈ (loweredModule memory p gs).functions, ∀ i < g.slotCount, g.NamesSlot i) ↔
      ∀ f ∈ p.functions, ∀ name ∈ f.declaredNames, Wat.isPlain name = true := by
  constructor
  · intro hslots f hf
    obtain ⟨g, hg, hlowered⟩ := exists_right_of_forall₂ h.functions hf
    obtain ⟨inits, calls, guard, slot, -, rfl⟩ := outcome_lowerFunction_eq_ok.mp hlowered
    exact (namesSlot_loweredFunction f inits calls guard slot).mp
      (hslots _ (List.mem_append_right _ hg))
  · intro hnames g hg
    rcases List.mem_append.mp hg with hbuiltin | huser
    · obtain ⟨b, -, rfl⟩ := List.mem_map.mp hbuiltin
      exact namesSlot_builtin b
    · obtain ⟨f, hf, hlowered⟩ := exists_left_of_forall₂ h.functions huser
      obtain ⟨inits, calls, guard, slot, -, rfl⟩ := outcome_lowerFunction_eq_ok.mp hlowered
      exact (namesSlot_loweredFunction f inits calls guard slot).mpr (hnames f hf)

/-- Callable names are the names of imports and of functions; those of
builtins are never empty. -/
theorem callables_nonempty_iff {p : Tree.Program} :
    (∀ name ∈ p.callables.map Prod.fst, name ≠ "") ↔
      (∀ i ∈ p.imports, i.id.name ≠ "") ∧ ∀ f ∈ p.functions, f.name ≠ "" := by
  have hbuiltins : ∀ b ∈ Builtin.all, b.name ≠ "" := by decide
  unfold Tree.Program.callables
  simp only [List.map_append, List.map_map, List.forall_mem_append, List.forall_mem_map,
    Function.comp_apply]
  exact ⟨fun h => ⟨h.1.1, h.2⟩, fun h => ⟨⟨h.1, hbuiltins⟩, h.2⟩⟩

/-- The text of an accepted program is read back as fields, in whose
lists each function has a legal identifier exactly when no import and no
function of the program has the empty name, each declaration of slots is
legal exactly when the names of all parameters and variables are plain,
and numbers stand for slots only where these are read and written in the
very same case. -/
theorem lower_emit_legal_iff {memory : Memory} {p : Tree.Program} {m : Module} {text : String}
    (hlower : (lower memory p).outcome = .ok m) (htext : (Wat.emit m).outcome = .ok text) :
    ∃ fields, Wat.module? text = some fields
      ∧ ((∀ items ∈ Wat.Sexp.listsAll fields, Wat.namesFunction items = true) ↔
          (∀ i ∈ p.imports, i.id.name ≠ "") ∧ ∀ f ∈ p.functions, f.name ≠ "")
      ∧ ((∀ items ∈ Wat.Sexp.listsAll fields, Wat.declaresSlots items = true) ↔
          ∀ f ∈ p.functions, ∀ name ∈ f.declaredNames, Wat.isPlain name = true)
      ∧ ((∀ items ∈ Wat.Sexp.listsAll fields, Wat.placesNumbers items = true) ↔
          ∀ f ∈ p.functions, ∀ name ∈ f.declaredNames, Wat.isPlain name = true) := by
  obtain ⟨gs, hprogram, rfl⟩ := outcome_lowerProgram_eq_ok.mp hlower
  obtain ⟨hvalid, rfl⟩ := Wat.outcome_emit_eq_ok.mp htext
  have hslots := Wat.slots_fields (storable_loweredModule memory hprogram)
  rw [namesSlot_loweredModule memory hprogram] at hslots
  refine ⟨_, Wat.module?_document (readable_loweredModule memory hprogram), ?_, hslots⟩
  rw [Wat.names_fields hvalid, callables_loweredModule memory hprogram, callables_nonempty_iff]

/-- The functions of `zaehler` have identifiers, most of them in quotes,
but its parameter is declared under a number. -/
theorem zaehler_legal :
    ∃ (m : Module) (text : String) (fields : List Wat.Sexp),
      (lower {} .zaehler).outcome = .ok m ∧ (Wat.emit m).outcome = .ok text
        ∧ Wat.module? text = some fields
        ∧ (∀ items ∈ Wat.Sexp.listsAll fields, Wat.namesFunction items = true)
        ∧ ¬ ∀ items ∈ Wat.Sexp.listsAll fields, Wat.declaresSlots items = true := by
  obtain ⟨m, hm, hvalid⟩ : ∃ m : Module,
      (lower {} .zaehler).outcome = .ok m ∧ m.validate = .ok () :=
    ⟨_, rfl, rfl⟩
  have htext : (Wat.emit m).outcome = .ok _ := Wat.outcome_emit_eq_ok.mpr ⟨hvalid, rfl⟩
  obtain ⟨fields, hfields, hnames, hdeclares, -⟩ := lower_emit_legal_iff hm htext
  refine ⟨m, _, fields, hm, htext, hfields, hnames.mpr (by decide), fun h => ?_⟩
  exact absurd (hdeclares.mp h) (by decide)

/-- A program with a parameter and a variable whose names are not plain. -/
def Tree.Program.unplain : Tree.Program where
  imports := [{ id := { name := "next" }, module := "env", base := "next"
                params := [.i32], result := .i32 }]
  functions := [{ id := { name := "run" }
                  params := [{ id := { name := "my slot" }, type := .i32 }]
                  result := .i32
                  body := { vars := [{ id := { name := "größe" }, type := .i32 }]
                            calls := [{ target := { name := "größe" }
                                        callee := { name := "next" }
                                        args := [.reference "my slot"] }] } }]

/-- In the text of `unplain` both slots are declared under their
numbers. -/
theorem unplain_numbered :
    ∃ (m : Module) (text : String) (fields : List Wat.Sexp),
      (lower {} .unplain).outcome = .ok m ∧ (Wat.emit m).outcome = .ok text
        ∧ Wat.module? text = some fields
        ∧ [.word "param", .word "0", .word "i32"] ∈ Wat.Sexp.listsAll fields
        ∧ [.word "local", .word "1", .word "i32"] ∈ Wat.Sexp.listsAll fields
        ∧ Wat.declaresSlots [.word "param", .word "0", .word "i32"] = false
        ∧ Wat.declaresSlots [.word "local", .word "1", .word "i32"] = false := by
  obtain ⟨m, hm, hvalid, hparam, hlocal⟩ : ∃ m : Module,
      (lower {} .unplain).outcome = .ok m ∧ m.validate = .ok ()
        ∧ [.word "param", .word "0", .word "i32"] ∈ Wat.Sexp.listsAll (Wat.fields m)
        ∧ [.word "local", .word "1", .word "i32"] ∈ Wat.Sexp.listsAll (Wat.fields m) :=
    ⟨_, rfl, rfl, List.mem_of_getElem? (i := 39) rfl, List.mem_of_getElem? (i := 41) rfl⟩
  have htext : (Wat.emit m).outcome = .ok _ := Wat.outcome_emit_eq_ok.mpr ⟨hvalid, rfl⟩
  have hreadable : Wat.Readable m := by
    obtain ⟨gs, hprogram, rfl⟩ := outcome_lowerProgram_eq_ok.mp hm
    exact readable_loweredModule {} hprogram
  exact ⟨m, _, _, hm, htext, Wat.module?_document hreadable, hparam, hlocal, by decide, by decide⟩

end CallFlow
