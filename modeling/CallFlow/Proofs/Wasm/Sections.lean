/-
What the sections of an emitted binary hold.

Each step of emission has its lemma here, and `binary_eq_ok` puts them together. `Linked` says what
the sections hold that refer to each other: places of types, indices of functions, and code. From
it come the two facts that a reader of the binary relies on: the type that is found for a callable
function by way of its entry and the type section is the type of that function, and the runs of a
body expand to its locals. The runs are also as long as can be, so none of them is empty.
-/
import Mathlib.Data.List.Chain
import CallFlow.Proofs.Semantics.StackMachine
import CallFlow.Proofs.Semantics.StackTyping
import CallFlow.Proofs.Wasm.Tables

namespace CallFlow.Wasm

variable {m : Module}

-- ============================================================== indices

/-- The code of a function is the code of its body and the end that
closes it. -/
theorem functionCode_eq_ok {indices : Dictionary String Nat} {f : Function} {entry : CodeEntry} :
    functionCode indices f = .ok entry ↔
      ∃ code, instructionsAll indices.get? [] f.body = .ok code
        ∧ entry = { locals := localRuns f.locals, instructions := code ++ [.stop] } := by
  simp only [functionCode, bind_eq_ok, pure_eq_ok]
  constructor
  · intro h
    obtain ⟨code, hcode, rfl⟩ := h
    exact ⟨code, hcode, rfl⟩
  · intro h
    obtain ⟨code, hcode, rfl⟩ := h
    exact ⟨code, hcode, rfl⟩

theorem indexIn_eq_ok {indices : Dictionary String Nat} {name : String} {i : Nat} :
    indexIn indices name = .ok i ↔ indices.get? name = some i := by
  unfold indexIn
  cases indices.get? name with
  | none => exact iff_of_false nofun nofun
  | some j => rw [Except.ok.injEq, Option.some_inj]

/-- An exported function with its index. -/
def ExportEntry.Of (m : Module) (e : Export) (entry : ExportEntry) : Prop :=
  ∃ i, m.index? e.function = some i ∧ entry = { name := e.name, target := .function i }

/-- The exports of a valid module are entered under the indices that a
search finds. -/
theorem exportEntries_eq_ok (hvalid : m.validate = .ok ()) {es : List Export}
    {entries : List ExportEntry} :
    exportEntries (indexMap m) es = .ok entries ↔
      List.Forall₂ (ExportEntry.Of m) es entries := by
  induction es generalizing entries with
  | nil =>
    rw [List.forall₂_nil_left_iff]
    exact ⟨fun h => (Except.ok.inj h).symm, fun h => congrArg Except.ok h.symm⟩
  | cons e es ih =>
    rw [exportEntries, List.forall₂_cons_left_iff]
    simp only [bind_eq_ok, pure_eq_ok, indexIn_eq_ok, get?_indexMap hvalid, ih]
    constructor
    · intro h
      obtain ⟨i, hi, rest, hrest, rfl⟩ := h
      exact ⟨_, rest, ⟨i, hi, rfl⟩, hrest, rfl⟩
    · intro h
      obtain ⟨_, rest, ⟨i, hi, rfl⟩, hrest, rfl⟩ := h
      exact ⟨i, hi, rest, hrest, rfl⟩

-- ================================================================ names

/-- The names of a module under their places: the functions come behind
the imports. -/
def placedNames (m : Module) : Names where
  functions := m.callables.zipIdx.map fun (n, i) => (i, n)
  locals := (m.functions.zipIdx m.imports.length).map fun (f, i) =>
    (i, f.slotNames.zipIdx.map fun (n, slot) => (slot, n))

section Names

variable {indices : Dictionary String Nat} {first : Nat}

/-- Names whose indices are their places, counted from some number, are
entered under these. -/
theorem callableNames_eq {names : List String}
    (h : ∀ (i : Nat) (name : String), names[i]? = some name →
      indices.get? name = some (first + i)) :
    callableNames indices names = .ok ((names.zipIdx first).map fun (n, i) => (i, n)) := by
  induction names generalizing first with
  | nil => rfl
  | cons name names ih =>
    have hfirst : indexIn indices name = .ok first := indexIn_eq_ok.mpr (h 0 name rfl)
    have hrest := @ih (first + 1) fun i n hn => by
      rw [h (i + 1) n hn, Nat.add_assoc, Nat.add_comm 1 i]
    rw [callableNames, hfirst, hrest]
    rfl

/-- Functions whose indices are their places, counted from some number,
have their slots named under these. -/
theorem localNames_eq {fs : List Function}
    (h : ∀ (i : Nat) (f : Function), fs[i]? = some f → indices.get? f.name = some (first + i)) :
    localNames indices fs = .ok ((fs.zipIdx first).map fun (f, i) =>
      (i, f.slotNames.zipIdx.map fun (n, slot) => (slot, n))) := by
  induction fs generalizing first with
  | nil => rfl
  | cons f fs ih =>
    have hfirst : indexIn indices f.name = .ok first := indexIn_eq_ok.mpr (h 0 f rfl)
    have hrest := @ih (first + 1) fun i g hg => by
      rw [h (i + 1) g hg, Nat.add_assoc, Nat.add_comm 1 i]
    rw [localNames, hfirst, hrest]
    rfl

end Names

/-- No name of a valid module is missing from the map, and each is
entered under its place. -/
theorem moduleNames_eq (hvalid : m.validate = .ok ()) :
    moduleNames m (indexMap m) = .ok (placedNames m) := by
  have hfunctions : callableNames (indexMap m) m.callables = .ok (placedNames m).functions := by
    refine callableNames_eq fun i name hname => ?_
    rw [get?_indexMap hvalid, Nat.zero_add]
    exact (Module.index?_eq_some_iff hvalid).mpr hname
  have hlocals : localNames (indexMap m) m.functions = .ok (placedNames m).locals := by
    refine localNames_eq fun i f hf => ?_
    rw [get?_indexMap hvalid]
    exact (Module.index?_eq_some_iff hvalid).mpr (Module.callables_function hf)
  rw [moduleNames, hfunctions, hlocals]
  rfl

/-- Names are placed where they are wanted. A valid module has an index
for every name, so this never fails. -/
theorem namesIf_eq (hvalid : m.validate = .ok ()) (wanted : Bool) :
    namesIf wanted m = .ok (if wanted then some (placedNames m) else none) := by
  cases wanted with
  | false => rfl
  | true =>
    rw [namesIf, if_pos rfl, moduleNames_eq hvalid]
    rfl

-- ============================================================= sections

/-- What the sections before the data hold. -/
structure Linked (m : Module) (b : Binary) : Prop where
  /-- No type is entered twice. -/
  distinct : b.types.Nodup
  /-- No type is entered that no function has. -/
  used : ∀ type ∈ b.types, type ∈ callableTypes m
  imports : List.Forall₂ (fun (i : Import) (e : ImportEntry) => e.module = i.module
    ∧ e.base = i.base ∧ b.types[e.type]? = some (.ofTypes i.params i.result)) m.imports b.imports
  functions : List.Forall₂ (fun (f : Function) t =>
    b.types[t]? = some (.ofTypes f.params f.result)) m.functions b.functions
  codes : List.Forall₂ (fun f code => functionCode (indexMap m) f = .ok code) m.functions b.codes
  initialPages : b.initialPages = m.memory.initialPages
  maximumPages : b.maximumPages = m.memory.maximumPages
  exports : ∃ entries, b.exports = { name := m.memory.exportName, target := .memory } :: entries
    ∧ List.Forall₂ (ExportEntry.Of m) m.exports entries

/-- Emission goes through the imports, the functions and the exports in
turn. The functions start with the table of types that the imports
leave. -/
theorem link_eq_ok {b : Binary} :
    link m = .ok b ↔
      ∃ answered codes types exports,
        functionEntries (indexMap m) (importEntries {} m.imports).2 m.functions
            = .ok (answered, codes, types)
          ∧ exportEntries (indexMap m) m.exports = .ok exports
          ∧ b = { types := types.types
                  imports := (importEntries {} m.imports).1
                  functions := answered
                  initialPages := m.memory.initialPages
                  maximumPages := m.memory.maximumPages
                  exports := { name := m.memory.exportName, target := .memory } :: exports
                  codes
                  data := []
                  names := none } := by
  unfold link
  obtain ⟨imports, types₀⟩ := importEntries {} m.imports
  simp only [bind_eq_ok, pure_eq_ok, Prod.exists]
  constructor
  · intro hparts
    obtain ⟨answered, codes, types, hfs, exports, hes, rfl⟩ := hparts
    exact ⟨answered, codes, types, exports, hfs, hes, rfl⟩
  · intro hparts
    obtain ⟨answered, codes, types, exports, hfs, hes, rfl⟩ := hparts
    exact ⟨answered, codes, types, hfs, exports, hes, rfl⟩

/-- The sections of a valid module hold its parts. The type table is
filled by two loops, and what the first has put there is what the second
starts with. -/
theorem linked_of_link (hvalid : m.validate = .ok ()) {b : Binary} (h : link m = .ok b) :
    Linked m b := by
  obtain ⟨answered, codes, types, exports, hfs, hes, rfl⟩ := link_eq_ok.mp h
  have himports := importEntries_answers TypeTable.inStep_empty m.imports
  have hfunctions := functionEntries_answers himports.inStep hfs
  exact
    { distinct := hfunctions.inStep.nodup
      used := fun type htype =>
        ((himports.trans hfunctions).only type htype).resolve_left List.not_mem_nil
      imports := (importEntries_entries TypeTable.inStep_empty m.imports).imp
        fun _ _ hentry => ⟨hentry.1, hentry.2.1,
          TypeTable.getElem?_of_prefix hfunctions.keeps hentry.2.2⟩
      functions := List.forall₂_map_left_iff.mp hfunctions.places
      codes := functionEntries_codes hfs
      initialPages := rfl
      maximumPages := rfl
      exports := ⟨exports, rfl, (exportEntries_eq_ok hvalid).mp hes⟩ }

/-- The entry of a segment. -/
def DataEntry.ofSegment (s : Segment) : DataEntry where
  offset := Int32.ofNat s.offset.toNat
  bytes := s.bytes

/-- Segments can be written if their addresses are below `2 ^ 31`, since
they are written as constants with a sign. -/
theorem dataEntries_eq_ok {ss : List Segment} {entries : List DataEntry} :
    dataEntries ss = .ok entries ↔
      (∀ s ∈ ss, s.offset < 0x80000000) ∧ entries = ss.map DataEntry.ofSegment := by
  induction ss generalizing entries with
  | nil =>
    constructor
    · intro h
      exact ⟨List.forall_mem_nil _, (Except.ok.inj h).symm⟩
    · intro h
      exact congrArg Except.ok h.2.symm
  | cons s ss ih =>
    rw [dataEntries, List.forall_mem_cons, List.map_cons]
    by_cases hs : s.offset < 0x80000000
    · rw [if_pos hs]
      simp only [bind_eq_ok, pure_eq_ok, ih]
      constructor
      · intro h
        obtain ⟨rest, ⟨hss, rfl⟩, rfl⟩ := h
        exact ⟨⟨hs, hss⟩, rfl⟩
      · intro h
        obtain ⟨⟨-, hss⟩, rfl⟩ := h
        exact ⟨_, ⟨hss, rfl⟩, rfl⟩
    · rw [if_neg hs]
      constructor
      · intro h
        cases h
      · intro h
        exact absurd h.1.1 hs

/-- The sections of a module with its data and, if they are wanted, its
names. -/
def Binary.completed (b : Binary) (m : Module) (names : Bool) : Binary :=
  { b with data := m.memory.segments.map DataEntry.ofSegment
           names := if names then some (placedNames m) else none }

/-- A module becomes a binary exactly when it is valid, its sections can
be linked, and the offsets of the segments are nonnegative. -/
theorem binary_eq_ok {names : Bool} {b : Binary} :
    binary m names = .ok b ↔
      m.validate = .ok () ∧ (∀ s ∈ m.memory.segments, s.offset < 0x80000000)
        ∧ ∃ linked, link m = .ok linked ∧ b = linked.completed m names := by
  simp only [binary, bind_eq_ok, pure_eq_ok, dataEntries_eq_ok]
  constructor
  · intro hparts
    obtain ⟨_, hvalid, linked, hlink, _, ⟨hdata, rfl⟩, named, hnamed, rfl⟩ := hparts
    rw [namesIf_eq hvalid] at hnamed
    cases hnamed
    exact ⟨hvalid, hdata, linked, hlink, rfl⟩
  · intro hparts
    obtain ⟨hvalid, hdata, linked, hlink, rfl⟩ := hparts
    exact ⟨(), hvalid, linked, hlink, _, ⟨hdata, rfl⟩, _, namesIf_eq hvalid names, rfl⟩

/-- The names of an assembled module are those of its source, if they
were wanted. -/
theorem names_of_binary {names : Bool} {b : Binary} (h : binary m names = .ok b) :
    b.names = if names then some (placedNames m) else none := by
  obtain ⟨-, -, linked, -, rfl⟩ := binary_eq_ok.mp h
  rfl

/-- Without names the sections are the same. -/
theorem binary_without_names {names : Bool} {b : Binary} (h : binary m names = .ok b) :
    binary m false = .ok { b with names := none } := by
  obtain ⟨hvalid, hdata, linked, hlink, rfl⟩ := binary_eq_ok.mp h
  exact binary_eq_ok.mpr ⟨hvalid, hdata, linked, hlink, rfl⟩

/-- A binary holds the parts of its module, whether it has names or not. -/
theorem linked_of_binary {names : Bool} {b : Binary} (h : binary m names = .ok b) : Linked m b := by
  obtain ⟨hvalid, -, linked, hlink, rfl⟩ := binary_eq_ok.mp h
  have hlinked := linked_of_link hvalid hlink
  exact { hlinked with }

/-- What is emitted are the bytes of the sections. Nothing else can
fail: sections that are there can be encoded. -/
theorem outcome_emit_eq_ok {names : Bool} {bytes : List UInt8} :
    (emit m names).outcome = .ok bytes ↔ ∃ b, binary m names = .ok b ∧ bytes = b.encode := by
  unfold emit
  cases binary m names with
  | error fault =>
    constructor
    · intro h
      cases h
    · intro h
      obtain ⟨b, hb, -⟩ := h
      cases hb
  | ok b =>
    constructor
    · intro h
      cases h
      exact ⟨b, rfl, rfl⟩
    · intro h
      obtain ⟨b', hb, rfl⟩ := h
      cases hb
      rfl

-- ========================================================= index spaces

/-- The functions of a module come behind its imports. -/
theorem callableTypes_function {i : Nat} {f : Function} (h : m.functions[i]? = some f) :
    (callableTypes m)[m.imports.length + i]? = some (.ofTypes f.params f.result) := by
  unfold callableTypes
  rw [getElem?_map_append, List.getElem?_map, h]
  rfl

namespace Linked

variable {b : Binary}

/-- Each callable function has a type index, which is the place of its
type. -/
theorem typeIndices (h : Linked m b) :
    List.Forall₂ (fun type i => b.types[i]? = some type) (callableTypes m) b.typeIndices := by
  refine List.rel_append ?_ ?_
  · rw [List.forall₂_map_left_iff, List.forall₂_map_right_iff]
    exact h.imports.imp fun _ _ hentry => hentry.2.2
  · rw [List.forall₂_map_left_iff]
    exact h.functions

/-- The type that an index leads to is that of the callable function at
the index. The type index of a function is read from its section, and
the type from the table, which only ever grows. -/
theorem callee?_eq (h : Linked m b) (index : Nat) :
    b.callee? index = (callableTypes m)[index]? := by
  have hrel := rel_getElem? h.typeIndices index
  unfold Binary.callee?
  generalize (callableTypes m)[index]? = type, b.typeIndices[index]? = place at hrel ⊢
  cases hrel with
  | none => rfl
  | some hplace => exact hplace

/-- A function has its code in the same place, and its index leads to
its type. -/
theorem exists_code (h : Linked m b) {k : Nat} {f : Function} (hf : m.functions[k]? = some f) :
    ∃ code, b.codes[k]? = some code ∧ functionCode (indexMap m) f = .ok code
      ∧ b.callee? (b.imports.length + k) = some (.ofTypes f.params f.result) := by
  obtain ⟨hk, rfl⟩ := List.getElem?_eq_some_iff.mp hf
  have hk' : k < b.codes.length := h.codes.length_eq ▸ hk
  refine ⟨b.codes[k], List.getElem?_eq_getElem hk', h.codes.get hk hk', ?_⟩
  rw [← h.imports.length_eq, h.callee?_eq]
  exact callableTypes_function hf

end Linked

-- ================================================================= runs

/-- Runs that are as long as can be: none is empty, and neighbours are
of different types. -/
structure MaximalRuns (rs : List (Nat × ValueType)) : Prop where
  positive : ∀ run ∈ rs, 0 < run.1
  alternating : rs.IsChain fun run next => run.2 ≠ next.2

section Runs

variable {rs : List (Nat × ValueType)}

/-- Runs stay maximal with one more, if it is not empty and of another
type than the last. -/
theorem maximalRuns_concat {run : Nat × ValueType} :
    MaximalRuns (rs ++ [run]) ↔
      MaximalRuns rs ∧ 0 < run.1 ∧ ∀ last ∈ rs.getLast?, last.2 ≠ run.2 := by
  constructor
  · intro h
    obtain ⟨hrs, hrun⟩ := List.forall_mem_append.mp h.positive
    obtain ⟨hchain, -, hlast⟩ := List.isChain_append.mp h.alternating
    exact ⟨⟨hrs, hchain⟩, hrun run List.mem_cons_self, fun last hmem => hlast last hmem run rfl⟩
  · intro hparts
    obtain ⟨hrs, hrun, hlast⟩ := hparts
    refine ⟨List.forall_mem_append.mpr ⟨hrs.positive, List.forall_mem_singleton.mpr hrun⟩,
      List.isChain_append.mpr ⟨hrs.alternating, List.isChain_singleton run, ?_⟩⟩
    intro last hmem next hnext
    cases hnext
    exact hlast last hmem

theorem expandRuns_concat (rs : List (Nat × ValueType)) (n : Nat) (t : ValueType) :
    expandRuns (rs ++ [(n, t)]) = expandRuns rs ++ List.replicate n t := by
  unfold expandRuns
  rw [List.flatMap_append, List.flatMap_singleton]

/-- One more local makes the last run grow by one if it is of its type,
and else starts a run. -/
theorem addLocal_cases (rs : List (Nat × ValueType)) (t : ValueType) :
    (∃ before n, rs = before ++ [(n, t)] ∧ addLocal rs t = before ++ [(n + 1, t)])
      ∨ (∀ last ∈ rs.getLast?, last.2 ≠ t) ∧ addLocal rs t = rs ++ [(1, t)] := by
  rcases List.eq_nil_or_concat rs with rfl | ⟨before, ⟨n, u⟩, rfl⟩
  · exact .inr ⟨nofun, rfl⟩
  · rw [List.concat_eq_append, addLocal, List.getLast?_concat, List.dropLast_concat]
    by_cases hu : u = t
    · subst hu
      exact .inl ⟨before, n, rfl, if_pos rfl⟩
    · refine .inr ⟨fun last hlast => ?_, if_neg hu⟩
      cases hlast
      exact hu

/-- A local that is added stands behind those before it. -/
theorem expandRuns_addLocal (rs : List (Nat × ValueType)) (t : ValueType) :
    expandRuns (addLocal rs t) = expandRuns rs ++ [t] := by
  obtain ⟨before, n, rfl, hgrows⟩ | ⟨-, hstarts⟩ := addLocal_cases rs t
  · rw [hgrows, expandRuns_concat, expandRuns_concat, List.replicate_succ', List.append_assoc]
  · rw [hstarts, expandRuns_concat]
    rfl

/-- The runs stay maximal: a run grows as long as its type goes on. -/
theorem MaximalRuns.addLocal (h : MaximalRuns rs) (t : ValueType) :
    MaximalRuns (addLocal rs t) := by
  obtain ⟨before, n, rfl, hgrows⟩ | ⟨hlast, hstarts⟩ := addLocal_cases rs t
  · obtain ⟨hbefore, -, hlast⟩ := maximalRuns_concat.mp h
    rw [hgrows]
    exact maximalRuns_concat.mpr ⟨hbefore, Nat.succ_pos n, hlast⟩
  · rw [hstarts]
    exact maximalRuns_concat.mpr ⟨h, Nat.one_pos, hlast⟩

/-- To expand what the loop over the locals has made is to list what it
went over. -/
theorem expandRuns_foldl (ts : List ValueType) (rs : List (Nat × ValueType)) :
    expandRuns (ts.foldl addLocal rs) = expandRuns rs ++ ts := by
  induction ts generalizing rs with
  | nil => exact (List.append_nil _).symm
  | cons t ts ih => rw [List.foldl_cons, ih, expandRuns_addLocal, List.append_assoc,
      List.singleton_append]

/-- The invariant of the loop over the locals: runs that are maximal
stay so. -/
theorem MaximalRuns.foldl (h : MaximalRuns rs) (ts : List ValueType) :
    MaximalRuns (ts.foldl Wasm.addLocal rs) := by
  induction ts generalizing rs with
  | nil => exact h
  | cons t ts ih => exact ih (h.addLocal t)

theorem maximalRuns_nil : MaximalRuns [] :=
  ⟨List.forall_mem_nil _, .nil⟩

/-- The runs of locals stand for the locals that can be stored, in
order. -/
theorem expandRuns_localRuns (locals : List ValueType) :
    expandRuns (localRuns locals) = locals.filter ValueType.isStorable :=
  expandRuns_foldl _ []

/-- The runs of locals are maximal: none is empty, and neighbours differ
in type. -/
theorem maximalRuns_localRuns (locals : List ValueType) : MaximalRuns (localRuns locals) :=
  maximalRuns_nil.foldl _

end Runs

end CallFlow.Wasm
