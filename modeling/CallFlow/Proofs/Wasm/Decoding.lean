/-
An emitted binary decodes to its module.

The code of a checked body is nested, and its immediates stay below the bound that the
size of the binary sets: a slot is one of the function, a callee has a name in the
binary, and a branch leaves no more blocks than there are instructions around it. So
what is emitted can be read back, and what is read are the parts of the module.
-/
import CallFlow.Proofs.Code.Checks
import CallFlow.Proofs.Wasm.RoundTrip
import CallFlow.Proofs.Wasm.Sections

namespace CallFlow.Wasm

open CallFlow.Expr (check checkAll)

-- ============================================================== the code

/-- Code inside so many blocks that can be written: it is nested, and
immediates are below the bound if the blocks and the instructions
together are. -/
structure Writable (bound depth : Nat) (code : List Instruction) : Prop where
  nested : Nested code
  immediates : depth + code.length ≤ bound → ∀ i ∈ code, i.immediate < bound

namespace Writable

variable {bound depth : Nat} {code code' : List Instruction}

theorem nil : Writable bound depth [] where
  nested := .nil
  immediates := fun _ => List.forall_mem_nil _

/-- Code that can be written stays so when it is put together. -/
theorem append (h : Writable bound depth code) (h' : Writable bound depth code') :
    Writable bound depth (code ++ code') where
  nested := h.nested.append h'.nested
  immediates := by
    intro hle
    rw [List.length_append] at hle
    rw [List.forall_mem_append]
    exact ⟨h.immediates (by omega), h'.immediates (by omega)⟩

/-- An instruction that opens and closes nothing can be written if its
immediate is within bounds. -/
theorem singleton {i : Instruction} (h1 : i ≠ .block) (h2 : i ≠ .loop) (h3 : i ≠ .stop)
    (h : depth + 1 ≤ bound → i.immediate < bound) : Writable bound depth [i] where
  nested := .cons h1 h2 h3 .nil
  immediates := fun hle => List.forall_mem_singleton.mpr (h hle)

/-- Code inside a block or a loop can be written one level further out. -/
theorem enclose {i : Instruction} (hi : i = .block ∨ i = .loop)
    (h : Writable bound (depth + 1) code) : Writable bound depth (i :: code ++ [.stop]) where
  nested := .enclose hi h.nested .nil
  immediates := by
    intro hle
    rw [List.length_append, List.length_cons, List.length_singleton] at hle
    rw [List.cons_append, List.forall_mem_cons, List.forall_mem_append, List.forall_mem_singleton]
    have hzero : i.immediate = 0 := by
      rcases hi with rfl | rfl <;> rfl
    have hpos : 0 < bound := by omega
    exact ⟨hzero ▸ hpos, h.immediates (by omega), hpos⟩

end Writable

section

variable {m : Module} {f : Function} {bound : Nat}

theorem writable_const (hbound : 32 < bound) {depth : Nat} (c : Constant) :
    Writable bound depth [constantOf c] := by
  cases c <;> exact .singleton nofun nofun nofun fun _ => Nat.zero_lt_of_lt hbound

theorem alignment_le (t : ValueType) : alignment t ≤ 32 := by
  cases t <;> decide

theorem writable_load (hbound : 32 < bound) {depth : Nat} (t : ValueType) :
    Writable bound depth [loadOf t] := by
  have halign := alignment_le t
  cases t <;> exact .singleton nofun nofun nofun fun _ => Nat.lt_of_le_of_lt halign hbound

theorem writable_store (hbound : 32 < bound) {depth : Nat} (t : ValueType) :
    Writable bound depth [storeOf t] := by
  have halign := alignment_le t
  cases t <;> exact .singleton nofun nofun nofun fun _ => Nat.lt_of_le_of_lt halign hbound

/-- A slot that has a type is one of the slots. -/
theorem lt_slotCount {i : Nat} {t : ValueType} (h : f.slotType? i = some t) : i < f.slotCount := by
  obtain ⟨hi, -⟩ := List.getElem?_eq_some_iff.mp h
  rwa [List.length_append] at hi

mutual

/-- The instructions of a checked expression can be written. Indices of
slots and callees and depths of labels are bounded by the module, and
blocks are closed where they were opened. The recursion is over the
expression. -/
theorem instructions_writable (hbound : 32 < bound) (hslots : f.slotCount ≤ bound)
    (hcallees : m.callables.length ≤ bound) {labels : List String} :
    ∀ e code, check m f labels e = .ok () → instructions m.index? labels e = .ok code →
      Writable bound labels.length code
  | .const c, code, _, hcode => by
    cases hcode
    exact writable_const hbound c
  | .get i t, code, h, hcode => by
    cases hcode
    have hi := lt_slotCount (Expr.check_get.mp h)
    exact .singleton nofun nofun nofun fun _ => Nat.lt_of_lt_of_le hi hslots
  | .set i v, code, h, hcode => by
    obtain ⟨hslot, hv⟩ := Expr.check_set.mp h
    simp only [instructions, bind_eq_ok, pure_eq_ok] at hcode
    obtain ⟨value, hvalue, rfl⟩ := hcode
    have hi := lt_slotCount hslot
    exact (instructions_writable hbound hslots hcallees v value hv hvalue).append
      (.singleton nofun nofun nofun fun _ => Nat.lt_of_lt_of_le hi hslots)
  | .call function args result, code, h, hcode => by
    obtain ⟨-, hargs⟩ := Expr.check_call.mp h
    simp only [instructions, bind_eq_ok] at hcode
    obtain ⟨values, hvalues, hcode⟩ := hcode
    cases hindex : m.index? function with
    | none =>
      rw [hindex] at hcode
      cases hcode
    | some i =>
      rw [hindex] at hcode
      cases hcode
      have hi : i < m.callables.length := (Module.index?_lt hindex)
      exact (instructionsAll_writable hbound hslots hcallees args values hargs hvalues).append
        (.singleton nofun nofun nofun fun _ => Nat.lt_of_lt_of_le hi hcallees)
  | .load t a, code, h, hcode => by
    obtain ⟨ha, -⟩ := Expr.check_load.mp h
    simp only [instructions, bind_eq_ok, pure_eq_ok] at hcode
    obtain ⟨address, haddress, rfl⟩ := hcode
    exact (instructions_writable hbound hslots hcallees a address ha haddress).append
      (writable_load hbound t)
  | .store t a v, code, h, hcode => by
    obtain ⟨ha, -, -, hv, -⟩ := Expr.check_store.mp h
    simp only [instructions, bind_eq_ok, pure_eq_ok] at hcode
    obtain ⟨address, haddress, value, hvalue, rfl⟩ := hcode
    exact ((instructions_writable hbound hslots hcallees a address ha haddress).append
      (instructions_writable hbound hslots hcallees v value hv hvalue)).append
      (writable_store hbound t)
  | .returnValue v, code, h, hcode => by
    obtain ⟨hv, -⟩ := Expr.check_returnValue.mp h
    simp only [instructions, bind_eq_ok, pure_eq_ok] at hcode
    obtain ⟨value, hvalue, rfl⟩ := hcode
    exact (instructions_writable hbound hslots hcallees v value hv hvalue).append
      (.singleton nofun nofun nofun fun _ => Nat.zero_lt_of_lt hbound)
  | .returnNone, code, _, hcode => by
    cases hcode
    exact .singleton nofun nofun nofun fun _ => Nat.zero_lt_of_lt hbound
  | .block l body, code, h, hcode => by
    simp only [instructions, bind_eq_ok, pure_eq_ok] at hcode
    obtain ⟨inner, hinner, rfl⟩ := hcode
    exact .enclose (.inl rfl) (instructionsAll_writable hbound hslots hcallees body inner h hinner)
  | .loop l body, code, h, hcode => by
    simp only [instructions, bind_eq_ok, pure_eq_ok] at hcode
    obtain ⟨inner, hinner, rfl⟩ := hcode
    exact .enclose (.inr rfl) (instructionsAll_writable hbound hslots hcallees body inner h hinner)
  | .branchIf l c test, code, h, hcode => by
    obtain ⟨-, hc, -⟩ := Expr.check_branchIf.mp h
    cases hdepth : labels.findIdx? (fun label => label == l) with
    | none =>
      rw [instructions, hdepth] at hcode
      cases hcode
    | some depth =>
      have hlt : depth < labels.length := (List.findIdx?_eq_some_iff_findIdx_eq.mp hdepth).1
      have hbranch : Writable bound labels.length [.branchIf depth] :=
        .singleton nofun nofun nofun fun hle => by
          show depth < bound
          omega
      have heqz : Writable bound labels.length [.i32Eqz] :=
        .singleton nofun nofun nofun fun _ => Nat.zero_lt_of_lt hbound
      rw [instructions, hdepth] at hcode
      simp only [bind_eq_ok] at hcode
      obtain ⟨condition, hcondition, hcode⟩ := hcode
      have hwritable := instructions_writable hbound hslots hcallees c condition hc hcondition
      cases test with
      | zero =>
        cases hcode
        exact hwritable.append (heqz.append hbranch)
      | nonzero =>
        cases hcode
        exact hwritable.append hbranch

/-- The instructions of checked expressions can be written. -/
theorem instructionsAll_writable (hbound : 32 < bound) (hslots : f.slotCount ≤ bound)
    (hcallees : m.callables.length ≤ bound) {labels : List String} :
    ∀ es code, checkAll m f labels es = .ok () → instructionsAll m.index? labels es = .ok code →
      Writable bound labels.length code
  | [], code, _, hcode => by
    cases hcode
    exact .nil
  | e :: es, code, h, hcode => by
    obtain ⟨he, hes⟩ := Expr.checkAll_cons.mp h
    simp only [instructionsAll, bind_eq_ok, pure_eq_ok] at hcode
    obtain ⟨first, hfirst, rest, hrest, rfl⟩ := hcode
    exact (instructions_writable hbound hslots hcallees e first he hfirst).append
      (instructionsAll_writable hbound hslots hcallees es rest hes hrest)

end

end

-- ============================================================== indices

/-- A vector of entries of at least one byte has at least as many bytes
as entries, so that the size of a module bounds every count in it. -/
theorem length_le_vector {α : Type} {encode : α → List UInt8} {xs : List α}
    (hne : ∀ x ∈ xs, encode x ≠ []) : xs.length ≤ (vector encode xs).length := by
  have h := length_le_flatMap hne
  rw [vector, List.length_append]
  omega

theorem length_le_vector_of_mem {α : Type} {encode : α → List UInt8} {xs : List α} {x : α}
    (h : x ∈ xs) : (encode x).length ≤ (vector encode xs).length := by
  have hle : (encode x).length ≤ (xs.flatMap encode).length := length_le_of_mem h
  rw [vector, List.length_append]
  omega

/-- A run is of a type with values and no longer than all slots
together. -/
theorem mem_localRuns {f : Function} {run : Nat × ValueType} (h : run ∈ localRuns f.locals) :
    run.1 ≤ f.slotCount ∧ run.2 ≠ .void := by
  have hpositive : 0 < run.1 := (maximalRuns_localRuns f.locals).positive run h
  have hsublist : (List.replicate run.1 run.2).Sublist (expandRuns (localRuns f.locals)) :=
    List.sublist_flatten_of_mem (List.mem_map_of_mem h)
  rw [expandRuns_localRuns] at hsublist
  have hlocal : run.2 ∈ f.locals.filter ValueType.isStorable :=
    hsublist.subset (List.mem_replicate.mpr ⟨by omega, rfl⟩)
  refine ⟨?_, ValueType.isStorable_eq_true.mp (List.mem_filter.mp hlocal).2⟩
  have hle := (hsublist.trans List.filter_sublist).length_le
  rw [List.length_replicate] at hle
  unfold Function.slotCount
  omega

/-- The types of functions are made of types with values. -/
theorem storable_of_mem_callableTypes {m : Module} {t : FunctionType} (h : t ∈ callableTypes m) :
    t.Storable := by
  have hofTypes : ∀ params result, (FunctionType.ofTypes params result).Storable := by
    intro params result
    exact ⟨fun p hp => ValueType.isStorable_eq_true.mp (List.mem_filter.mp hp).2,
      fun r hr => ValueType.isStorable_eq_true.mp (List.mem_filter.mp hr).2⟩
  rcases List.mem_append.mp h with h | h
  · obtain ⟨i, -, rfl⟩ := List.mem_map.mp h
    exact hofTypes _ _
  · obtain ⟨f, -, rfl⟩ := List.mem_map.mp h
    exact hofTypes _ _

/-- The names of the callable functions take at least a byte each. -/
theorem length_callables_lt (m : Module) : m.callables.length < (placedNames m).encode.length := by
  have hle : (placedNames m).functions.length
      ≤ (vector numberedName (placedNames m).functions).length :=
    length_le_vector fun n _ => append_ne_nil (unsigned_ne_nil n.1)
  have hlength : (placedNames m).functions.length = m.callables.length := by
    simp [placedNames]
  have hlt := (placedNames m).length_functions_lt
  omega

/-- The names of a module fit if their bytes do. Every number in them is
a place in a list whose entries all take bytes. -/
theorem fits_placedNames {m : Module} (h : (placedNames m).encode.length < 2 ^ 32) :
    (placedNames m).Fits := by
  have hlocals := (placedNames m).length_locals_lt
  have hcallables := length_callables_lt m
  constructor
  · intro p hp
    obtain ⟨⟨n, i⟩, hmem, rfl⟩ := List.mem_map.mp hp
    obtain ⟨-, hi, -⟩ := List.mem_zipIdx hmem
    show i < _
    omega
  · intro p hp
    have hsize : (slotNames p).length ≤ (vector slotNames (placedNames m).locals).length :=
      length_le_vector_of_mem hp
    have hparts : (slotNames p).length
        = (unsigned p.1).length + (vector numberedName p.2).length := List.length_append
    have hslots : p.2.length ≤ (vector numberedName p.2).length :=
      length_le_vector fun n _ => append_ne_nil (unsigned_ne_nil n.1)
    obtain ⟨⟨f, i⟩, hmem, rfl⟩ := List.mem_map.mp hp
    obtain ⟨-, hi, -⟩ := List.mem_zipIdx hmem
    constructor
    · have hlength : m.callables.length = m.imports.length + m.functions.length := by
        simp [Module.callables]
      show i < _
      omega
    · intro q hq
      obtain ⟨⟨n, slot⟩, hmem, rfl⟩ := List.mem_map.mp hq
      obtain ⟨-, hslot, -⟩ := List.mem_zipIdx hmem
      rw [List.length_map, List.length_zipIdx] at hslots
      show slot < _
      omega

/-- The instructions of a function are no more than the bytes they are
written in. -/
theorem CodeEntry.length_instructions_le (c : CodeEntry) :
    c.instructions.length ≤ c.encode.length := by
  have hsized := length_le_sized (vector localRun c.locals
    ++ c.instructions.flatMap Instruction.encode)
  have hle : c.instructions.length ≤ (c.instructions.flatMap Instruction.encode).length :=
    length_le_flatMap fun i _ => i.encode_ne_nil
  rw [List.length_append] at hsized
  rw [CodeEntry.encode]
  omega

/-- The code of a checked function fits if its bytes do. The runs of its
locals and its instructions are inside its bytes. -/
theorem fits_functionCode {m : Module} {f : Function} {c : CodeEntry}
    (hvalid : m.validate = .ok ()) (hf : f ∈ m.functions)
    (hcode : functionCode (indexMap m) f = .ok c)
    (hslots : f.slotCount < 2 ^ 32) (hcallees : m.callables.length < 2 ^ 32)
    (hsize : c.encode.length < 2 ^ 32) : c.Fits := by
  have hcheck := Module.checkBodies_eq_ok.mp (Module.validate_eq_ok.mp hvalid).2.2.2 f hf
  obtain ⟨code, hbody, rfl⟩ := functionCode_eq_ok.mp hcode
  rw [get?_indexMap hvalid] at hbody
  have hwritable := instructionsAll_writable (by decide) hslots.le hcallees.le f.body code hcheck
    hbody
  have hlength : (code ++ [Instruction.stop]).length < 2 ^ 32 :=
    (CodeEntry.length_instructions_le _).trans_lt hsize
  constructor
  · intro run hrun
    obtain ⟨hle, hvoid⟩ := mem_localRuns hrun
    exact ⟨Nat.lt_of_le_of_lt hle hslots, hvoid⟩
  · exact ⟨code, rfl, hwritable.nested⟩
  · rw [List.forall_mem_append, List.forall_mem_singleton]
    rw [List.length_append] at hlength
    exact ⟨hwritable.immediates (by simp only [List.length_nil]; omega), Nat.two_pow_pos 32⟩

/-- The sections of a module with names fit if their bytes do. No
section is longer than the whole, and every count is at most the length
of its section. -/
theorem fits_binary {m : Module} {b : Binary} (hb : binary m true = .ok b)
    (hsize : b.encode.length < 2 ^ 32) (hslots : ∀ f ∈ m.functions, f.slotCount < 2 ^ 32) :
    b.Fits := by
  have hlinked := linked_of_binary hb
  have hnamed := names_of_binary hb
  have hvalid := (binary_eq_ok.mp hb).1
  have hnames : (placedNames m).encode.length < 2 ^ 32 :=
    (Binary.length_names_le hnamed).trans_lt hsize
  have hcallees : m.callables.length < 2 ^ 32 := (length_callables_lt m).trans hnames
  have hplaces : ∀ {i type}, b.types[i]? = some type → i < 2 ^ 32 := by
    intro i type hi
    have hlt := b.length_content_lt 1 (vector FunctionType.encode b.types) List.mem_cons_self
    have hle : b.types.length ≤ (vector FunctionType.encode b.types).length :=
      length_le_vector fun _ _ => List.cons_ne_nil _ _
    have hplace := (List.getElem?_eq_some_iff.mp hi).1
    omega
  constructor
  · exact fun t ht => storable_of_mem_callableTypes (hlinked.used t ht)
  · intro e he
    obtain ⟨i, -, -, -, hplace⟩ := exists_left_of_forall₂ hlinked.imports he
    exact hplaces hplace
  · intro t ht
    obtain ⟨f, -, hplace⟩ := exists_left_of_forall₂ hlinked.functions ht
    exact hplaces hplace
  · intro e he
    obtain ⟨entries, hentries, hexports⟩ := hlinked.exports
    rw [hentries] at he
    rcases List.mem_cons.mp he with rfl | he
    · exact Nat.two_pow_pos 32
    · obtain ⟨e', -, i, hi, rfl⟩ := exists_left_of_forall₂ hexports he
      exact (Module.index?_lt hi).trans hcallees
  · intro c hc
    obtain ⟨f, hf, hcode⟩ := exists_left_of_forall₂ hlinked.codes hc
    have hlt := b.length_content_lt 10 (vector CodeEntry.encode b.codes)
      (by simp [Binary.unnamedBytes])
    have hle : c.encode.length ≤ (vector CodeEntry.encode b.codes).length :=
      length_le_vector_of_mem hc
    exact fits_functionCode hvalid hf hcode (hslots f hf) hcallees (by omega)
  · intro n hn
    rw [hnamed] at hn
    cases hn
    exact fits_placedNames hnames

-- =============================================================== modules

/-- Entries that give every text its place in a list, in order. -/
structure Numbers (texts : List String) (entries : List (Nat × String)) : Prop where
  all : entries.map Prod.snd = texts
  places : ∀ entry ∈ entries, texts[entry.1]? = some entry.2
  increasing : (entries.map Prod.fst).Pairwise (· < ·)

/-- Names that are numbered by their places are numbered in increasing
order, as a name map must be. -/
theorem numbers_zipIdx (texts : List String) :
    Numbers texts (texts.zipIdx.map fun (n, i) => (i, n)) where
  all := by
    rw [List.map_map]
    exact List.zipIdx_map_fst 0 texts
  places := by
    intro entry hentry
    obtain ⟨p, hp, rfl⟩ := List.mem_map.mp hentry
    exact List.mem_zipIdx_iff_getElem?.mp hp
  increasing := by
    have hindices : (texts.zipIdx.map fun (n, i) => (i, n)).map Prod.fst
        = List.range' 0 texts.length := by
      rw [List.map_map]
      exact List.zipIdx_map_snd 0 texts
    rw [hindices]
    exact List.pairwise_lt_range' 1

/-- The sections hold the parts of a module: the imports with their
types, the functions in order with their types and code, the limits of
the memory, the export of the memory and behind it those of the
functions, and the segments. -/
structure Binary.Holds (b : Binary) (m : Module) : Prop where
  imports : List.Forall₂ (fun (i : Import) (e : ImportEntry) => e.module = i.module
    ∧ e.base = i.base ∧ b.types[e.type]? = some (.ofTypes i.params i.result)) m.imports b.imports
  functions : List.Forall₂ (fun (f : Function) t =>
    b.types[t]? = some (.ofTypes f.params f.result)) m.functions b.functions
  codes : List.Forall₂ (fun (f : Function) (c : CodeEntry) => c.locals = localRuns f.locals
    ∧ ∃ code, instructionsAll m.index? [] f.body = .ok code ∧ c.instructions = code ++ [.stop])
    m.functions b.codes
  initialPages : b.initialPages = m.memory.initialPages
  maximumPages : b.maximumPages = m.memory.maximumPages
  exports : ∃ entries, b.exports = { name := m.memory.exportName, target := .memory } :: entries
    ∧ List.Forall₂ (ExportEntry.Of m) m.exports entries
  data : List.Forall₂ (fun (s : Segment) (d : DataEntry) => d.offset.toInt = s.offset.toNat
    ∧ d.bytes = s.bytes) m.memory.segments b.data

/-- The names are those of the callable functions and of the slots of
each function. -/
structure Names.Hold (n : Names) (m : Module) : Prop where
  functions : Numbers m.callables n.functions
  indices : n.locals.map Prod.fst = List.range' m.imports.length m.functions.length
  increasing : (n.locals.map Prod.fst).Pairwise (· < ·)
  locals : List.Forall₂ (fun (f : Function) entries => Numbers f.slotNames entries.2)
    m.functions n.locals

/-- The binary of a module holds its parts. -/
theorem holds_binary {m : Module} {names : Bool} {b : Binary} (h : binary m names = .ok b) :
    b.Holds m := by
  have hlinked := linked_of_binary h
  obtain ⟨hvalid, hoffsets, linked, -, rfl⟩ := binary_eq_ok.mp h
  refine ⟨hlinked.imports, hlinked.functions, ?_, hlinked.initialPages, hlinked.maximumPages,
    hlinked.exports, ?_⟩
  · refine hlinked.codes.imp fun f c hcode => ?_
    obtain ⟨code, hbody, rfl⟩ := functionCode_eq_ok.mp hcode
    rw [get?_indexMap hvalid] at hbody
    exact ⟨rfl, code, hbody, rfl⟩
  · show List.Forall₂ _ m.memory.segments (m.memory.segments.map _)
    rw [List.forall₂_map_right_iff, List.forall₂_same]
    intro s hs
    have hlt : s.offset.toNat < 2 ^ 31 := UInt32.lt_iff_toNat_lt.mp (hoffsets s hs)
    exact ⟨Int32.toInt_ofNat_of_lt hlt, rfl⟩

/-- The names of a module are entered in the order of their places. -/
theorem hold_placedNames (m : Module) : (placedNames m).Hold m := by
  have hindices : (placedNames m).locals.map Prod.fst
      = List.range' m.imports.length m.functions.length := by
    rw [placedNames, List.map_map]
    exact List.zipIdx_map_snd _ _
  refine ⟨numbers_zipIdx m.callables, hindices, ?_, ?_⟩
  · rw [hindices]
    exact List.pairwise_lt_range' 1
  · have hzip : List.Forall₂ (fun (f : Function) entries => Numbers f.slotNames entries.2)
        ((m.functions.zipIdx m.imports.length).map Prod.fst) (placedNames m).locals := by
      rw [placedNames, List.forall₂_map_right_iff, List.forall₂_map_left_iff, List.forall₂_same]
      exact fun p _ => numbers_zipIdx p.1.slotNames
    rwa [List.zipIdx_map_fst] at hzip

/-- What is emitted for a module decodes to its sections in order and to
its names behind them, which together hold the parts of the module;
without names the same bytes are emitted up to the section with the
names. -/
theorem emit_decodes {m : Module} {bytes : List UInt8} (h : (emit m true).outcome = .ok bytes)
    (hsize : bytes.length < 2 ^ 32) (hslots : ∀ f ∈ m.functions, f.slotCount < 2 ^ 32) :
    ∃ (b : Binary) (n : Names) (plain custom : List UInt8),
      decode bytes = some (b.unnamed ++ [n.toSection])
        ∧ b.Holds m ∧ b.functions.length = b.codes.length ∧ n.Hold m
        ∧ (emit m false).outcome = .ok plain ∧ decode plain = some b.unnamed
        ∧ bytes = plain ++ custom ∧ Reader.moduleSection custom = some (n.toSection, []) := by
  obtain ⟨b, hb, rfl⟩ := outcome_emit_eq_ok.mp h
  have hfits := fits_binary hb hsize hslots
  have hnamed := names_of_binary hb
  have hplain : { b with names := none }.Fits :=
    ⟨hfits.types, hfits.imports, hfits.functions, hfits.exports, hfits.codes, nofun⟩
  have hsplit : b.encode = { b with names := none }.encode ++ (placedNames m).encode := by
    rw [Binary.encode_eq, Binary.encode_eq, hnamed]
    show preamble ++ _ ++ [(placedNames m).encode].flatten = preamble ++ _ ++ [].flatten ++ _
    rw [List.flatten_singleton, List.flatten_nil, List.append_nil]
    rfl
  have hlength := hsize
  rw [hsplit, List.length_append] at hlength
  have hnames : (placedNames m).encode.length < 2 ^ 32 := by omega
  have hlengths : b.functions.length = b.codes.length := by
    rw [← (linked_of_binary hb).functions.length_eq, (linked_of_binary hb).codes.length_eq]
  have hdecoded : decode b.encode = some (b.unnamed ++ [(placedNames m).toSection]) := by
    have hdecode := decode_encode hfits hsize
    rw [hnamed] at hdecode
    exact hdecode
  refine ⟨b, placedNames m, { b with names := none }.encode, (placedNames m).encode, hdecoded,
    holds_binary hb, hlengths, hold_placedNames m,
    outcome_emit_eq_ok.mpr ⟨_, binary_without_names hb, rfl⟩, ?_, hsplit, ?_⟩
  · have hdecode := decode_encode hplain (by omega)
    rw [hdecode]
    exact congrArg some (List.append_nil _)
  · have hread := Reads.names (fits_placedNames hnames) hnames []
    rwa [List.append_nil] at hread

/-- A module with numbers of several bytes, nested blocks and a name
that is not ASCII. -/
def tally : Module where
  imports :=
    [{ name := "show", module := "env", base := "print", params := [.i32], result := .void }]
  functions :=
    [{ name := "größe"
       params := [.i32]
       locals := [.i64, .i64, .f64]
       result := .f64
       body :=
        [.set 1 (.const (.i64 (-129))),
          .block "exit"
            [.loop "repeat"
              [.call "show" [.get 0 .i32] .void, .branchIf "exit" (.get 0 .i32) .zero]],
          .set 3 (.const (.f64 ⟨0x3FF8000000000000⟩)),
          .returnValue (.get 3 .f64)]
       slotNames := ["n", "a", "b", "x"]
       kind := .user }]
  exports := [{ function := "größe", name := "size" }]
  memory := {}

/-- The bytes of `tally` decode to its eight sections in order. -/
theorem tally_decodes :
    ∃ bytes, (emit tally true).outcome = .ok bytes ∧ bytes.length < 2 ^ 32
      ∧ (∀ f ∈ tally.functions, f.slotCount < 2 ^ 32)
      ∧ (decode bytes).map (·.map Section.id) = some [1, 2, 3, 5, 7, 10, 11, 0] := by
  obtain ⟨b, hb, hsize⟩ : ∃ b, binary tally true = .ok b ∧ b.encode.length < 2 ^ 32 :=
    ⟨_, rfl, by decide +kernel⟩
  have hemit : (emit tally true).outcome = .ok b.encode := outcome_emit_eq_ok.mpr ⟨b, hb, rfl⟩
  have hslots : ∀ f ∈ tally.functions, f.slotCount < 2 ^ 32 := by decide
  obtain ⟨b', n, -, -, hdecode, -⟩ := emit_decodes hemit hsize hslots
  refine ⟨b.encode, hemit, hsize, hslots, ?_⟩
  rw [hdecode]
  rfl

end CallFlow.Wasm
