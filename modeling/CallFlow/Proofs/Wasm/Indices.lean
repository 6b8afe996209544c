/-
The index spaces of a valid module.

In the binary format a call, an export and a name entry stand for a function by its index, a
function stands for its type by another, and a branch for its label by a depth. What the checks
of a module say about names, emission needs about these numbers. First, they are all there: the
code of a checked body mentions no name without an index, so nothing but the offset of a segment
can stop the emission of a valid module. Second, they agree. Everything is written with the index
that a map gives, and that is the place of the name among the imports and functions and what a
search finds (the names are distinct, so the first place is the last). The types are a table without
repetition that was filled on the way, and an answer that it gave is still right in the end, so
two functions have one type index exactly when they have one type.
-/
import CallFlow.Proofs.Compilation

namespace CallFlow

-- ================================================================ calls

namespace Expr

mutual

/-- The functions that an expression calls, in the order in which the
calls are done. -/
def callees : Expr → List String
  | const _ => []
  | get _ _ => []
  | set _ v => callees v
  | call function args _ => calleesAll args ++ [function]
  | load _ a => callees a
  | store _ a v => callees a ++ callees v
  | returnValue v => callees v
  | returnNone => []
  | block _ body => calleesAll body
  | loop _ body => calleesAll body
  | branchIf _ c _ => callees c

/-- The functions that expressions call in turn. -/
def calleesAll : List Expr → List String
  | [] => []
  | e :: es => callees e ++ calleesAll es

end

end Expr

namespace Wasm

/-- The function that an instruction calls. -/
def Instruction.callee? : Instruction → Option Nat
  | .call i => some i
  | _ => none

/-- Calls by name and calls by index, the same ones in the same order. -/
def CallsMatch (index? : String → Option Nat) (names : List String) (code : List Instruction) :
    Prop :=
  List.Forall₂ (fun name i => index? name = some i) names (code.filterMap Instruction.callee?)

namespace CallsMatch

variable {index? : String → Option Nat} {names names' : List String}
  {code code' : List Instruction}

/-- Calls that match stay matched when code is put together. -/
theorem append (h : CallsMatch index? names code) (h' : CallsMatch index? names' code') :
    CallsMatch index? (names ++ names') (code ++ code') := by
  unfold CallsMatch
  rw [List.filterMap_append]
  exact List.rel_append h h'

/-- Instructions that call nothing may come behind. -/
theorem behind (h : CallsMatch index? names code)
    (hnone : code'.filterMap Instruction.callee? = []) :
    CallsMatch index? names (code ++ code') := by
  unfold CallsMatch
  rw [List.filterMap_append, hnone, List.append_nil]
  exact h

end CallsMatch

section

variable {index? : String → Option Nat}

theorem callee?_constantOf (c : Constant) : (constantOf c).callee? = none := by
  cases c <;> rfl

theorem callee?_loadOf (t : ValueType) : (loadOf t).callee? = none := by
  cases t <;> rfl

theorem callee?_storeOf (t : ValueType) : (storeOf t).callee? = none := by
  cases t <;> rfl

mutual

/-- The calls in the code of an expression are those of the expression.
Arguments are evaluated before the call, so their calls come first in
both lists. -/
theorem instructions_callees {labels : List String} :
    ∀ e code, instructions index? labels e = .ok code → CallsMatch index? e.callees code
  | .const c, code, h => by
    cases h
    unfold CallsMatch
    rw [List.filterMap_cons_none (callee?_constantOf c)]
    exact .nil
  | .get i t, code, h => by
    cases h
    exact .nil
  | .set i v, code, h => by
    simp only [instructions, bind_eq_ok, pure_eq_ok] at h
    obtain ⟨value, hvalue, rfl⟩ := h
    exact (instructions_callees v value hvalue).behind rfl
  | .call function args result, code, h => by
    simp only [instructions, bind_eq_ok] at h
    obtain ⟨before, hbefore, hcall⟩ := h
    cases hindex : index? function with
    | none =>
      rw [hindex] at hcall
      cases hcall
    | some i =>
      rw [hindex] at hcall
      cases hcall
      exact (instructionsAll_callees args before hbefore).append (.cons hindex .nil)
  | .load t a, code, h => by
    simp only [instructions, bind_eq_ok, pure_eq_ok] at h
    obtain ⟨address, haddress, rfl⟩ := h
    exact (instructions_callees a address haddress).behind
      (List.filterMap_cons_none (callee?_loadOf t))
  | .store t a v, code, h => by
    simp only [instructions, bind_eq_ok, pure_eq_ok] at h
    obtain ⟨address, haddress, value, hvalue, rfl⟩ := h
    exact ((instructions_callees a address haddress).append
      (instructions_callees v value hvalue)).behind (List.filterMap_cons_none (callee?_storeOf t))
  | .returnValue v, code, h => by
    simp only [instructions, bind_eq_ok, pure_eq_ok] at h
    obtain ⟨value, hvalue, rfl⟩ := h
    exact (instructions_callees v value hvalue).behind rfl
  | .returnNone, code, h => by
    cases h
    exact .nil
  | .block l body, code, h => by
    simp only [instructions, bind_eq_ok, pure_eq_ok] at h
    obtain ⟨inner, hinner, rfl⟩ := h
    have hentered : CallsMatch index? (Expr.calleesAll body) (.block :: inner) :=
      instructionsAll_callees body inner hinner
    exact hentered.behind rfl
  | .loop l body, code, h => by
    simp only [instructions, bind_eq_ok, pure_eq_ok] at h
    obtain ⟨inner, hinner, rfl⟩ := h
    have hentered : CallsMatch index? (Expr.calleesAll body) (.loop :: inner) :=
      instructionsAll_callees body inner hinner
    exact hentered.behind rfl
  | .branchIf l c test, code, h => by
    rw [instructions] at h
    cases hdepth : labels.findIdx? fun label => label == l with
    | none =>
      rw [hdepth] at h
      cases h
    | some depth =>
      rw [hdepth] at h
      obtain ⟨condition, hcondition, hcode⟩ := bind_eq_ok.mp h
      cases test with
      | zero =>
        cases hcode
        exact (instructions_callees c condition hcondition).behind rfl
      | nonzero =>
        cases hcode
        exact (instructions_callees c condition hcondition).behind rfl

/-- Statements call, in order, what each of them calls. -/
theorem instructionsAll_callees {labels : List String} :
    ∀ es code, instructionsAll index? labels es = .ok code →
      CallsMatch index? (Expr.calleesAll es) code
  | [], code, h => by
    cases h
    exact .nil
  | e :: es, code, h => by
    simp only [instructionsAll, bind_eq_ok, pure_eq_ok] at h
    obtain ⟨first, hfirst, rest, hrest, rfl⟩ := h
    exact (instructions_callees e first hfirst).append (instructionsAll_callees es rest hrest)

end

end

variable {m : Module}

/-- The calls in the code of a function are those of its body, by the
index that a search finds. -/
theorem functionCode_callees (hvalid : m.validate = .ok ()) {f : Function} {entry : CodeEntry}
    (h : functionCode (indexMap m) f = .ok entry) :
    CallsMatch m.index? (Expr.calleesAll f.body) entry.instructions := by
  obtain ⟨code, hcode, rfl⟩ := functionCode_eq_ok.mp h
  rw [get?_indexMap hvalid] at hcode
  exact (instructionsAll_callees f.body code hcode).behind rfl

-- ================================================================ types

/-- In a list without repetition two places are the same exactly when
what stands there is. -/
theorem place_inj {α : Type} {l : List α} (h : l.Nodup) {i j : Nat} {a b : α}
    (hi : l[i]? = some a) (hj : l[j]? = some b) : i = j ↔ a = b := by
  obtain ⟨hlt, rfl⟩ := List.getElem?_eq_some_iff.mp hi
  obtain ⟨hlt', rfl⟩ := List.getElem?_eq_some_iff.mp hj
  exact h.getElem_inj_iff.symm

/-- Function types are the same exactly when the types with values that
they take are, and the type that they give. -/
theorem FunctionType.ofTypes_inj {params params' : List ValueType} {result result' : ValueType} :
    FunctionType.ofTypes params result = .ofTypes params' result' ↔
      params.filter ValueType.isStorable = params'.filter ValueType.isStorable
        ∧ result = result' := by
  constructor
  · intro h
    have hresult := congrArg FunctionType.result h
    rw [result_ofTypes, result_ofTypes] at hresult
    exact ⟨congrArg FunctionType.params h, hresult⟩
  · intro h
    obtain ⟨hparams, rfl⟩ := h
    unfold ofTypes
    rw [hparams]

/-- The type index of a callable function is the place of its type. -/
theorem Linked.exists_typeIndex {b : Binary} (h : Linked m b) {i : Nat} {name : String}
    {params : List ValueType} {result : ValueType}
    (hi : m.signatures[i]? = some (name, params, result)) :
    ∃ t, b.typeIndices[i]? = some t ∧ b.types[t]? = some (.ofTypes params result) := by
  have htype : (callableTypes m)[i]? = some (.ofTypes params result) := by
    rw [callableTypes_eq_signatures, List.getElem?_map, hi]
    rfl
  have hrel := rel_getElem? h.typeIndices i
  rw [htype] at hrel
  generalize b.typeIndices[i]? = place at hrel ⊢
  cases hrel with
  | some hplace => exact ⟨_, rfl, hplace⟩

-- ============================================================ coherence

/-- The numbers in a binary and in names agree with each other and with
the module: an index is the place of a name among the imports and
functions wherever it occurs, and a type index is the place of a type in
a table without repetition. -/
structure Coherent (m : Module) (b : Binary) (names : Names) : Prop where
  /-- Names are distinct, so the first place of a name is the only one. -/
  index : ∀ i name, m.index? name = some i ↔ m.callables[i]? = some name
  /-- The map that everything is written with gives the index that a
  search finds. -/
  map : ∀ name, (indexMap m).get? name = m.index? name
  calls : List.Forall₂ (fun f entry =>
    CallsMatch m.index? (Expr.calleesAll f.body) entry.instructions) m.functions b.codes
  /-- The memory comes first, and then the functions in order. -/
  exports : ∃ entries, b.exports = { name := m.memory.exportName, target := .memory } :: entries
    ∧ List.Forall₂ (ExportEntry.Of m) m.exports entries
  functionNames : ∀ i name, (i, name) ∈ names.functions ↔ m.index? name = some i
  slotNames : ∀ i slots, (i, slots) ∈ names.locals ↔
    ∃ f ∈ m.functions, m.index? f.name = some i ∧ slots = f.slotNames.zipIdx.map Prod.swap
  /-- The type index of a callable function leads to what it takes and
  gives, without `void`. -/
  typed : ∀ (i : Nat) (name : String) (params : List ValueType) (result : ValueType),
    m.signatures[i]? = some (name, params, result) →
      ∃ t, b.typeIndices[i]? = some t
        ∧ b.types[t]? = some { params := params.filter ValueType.isStorable
                               results := if result = .void then [] else [result] }
  distinct : b.types.Nodup
  shared : ∀ (i j : Nat) (name name' : String) (params params' : List ValueType)
    (result result' : ValueType), m.signatures[i]? = some (name, params, result) →
      m.signatures[j]? = some (name', params', result') →
        (b.typeIndices[i]? = b.typeIndices[j]? ↔
          params.filter ValueType.isStorable = params'.filter ValueType.isStorable
            ∧ result = result')

/-- Functions are named at the index that calls use for them: imports
first, then the functions of the module. -/
theorem mem_functions_placedNames {i : Nat} {name : String} :
    (i, name) ∈ (placedNames m).functions ↔ m.callables[i]? = some name := by
  unfold placedNames
  rw [List.mem_map]
  constructor
  · intro h
    obtain ⟨⟨n, k⟩, hmem, heq⟩ := h
    cases heq
    exact List.mem_zipIdx_iff_getElem?.mp hmem
  · intro h
    exact ⟨(name, i), List.mem_zipIdx_iff_getElem?.mpr h, rfl⟩

/-- The slots of a function are named under the index of that function,
each at its own number. -/
theorem mem_locals_placedNames {i : Nat} {slots : List (Nat × String)} :
    (i, slots) ∈ (placedNames m).locals ↔
      ∃ k f, m.functions[k]? = some f ∧ i = m.imports.length + k
        ∧ slots = f.slotNames.zipIdx.map Prod.swap := by
  unfold placedNames
  rw [List.mem_map]
  constructor
  · intro h
    obtain ⟨⟨f, j⟩, hmem, heq⟩ := h
    cases heq
    obtain ⟨hle, hf⟩ := List.mk_mem_zipIdx_iff_le_and_getElem?_sub.mp hmem
    exact ⟨i - m.imports.length, f, hf, by omega, rfl⟩
  · intro h
    obtain ⟨k, f, hf, rfl, rfl⟩ := h
    refine ⟨(f, m.imports.length + k), ?_, rfl⟩
    rw [List.mk_mem_zipIdx_iff_le_and_getElem?_sub, Nat.add_sub_cancel_left]
    exact ⟨Nat.le_add_right _ _, hf⟩

/-- The slots of a function are named under the index of the function. -/
theorem mem_locals_iff (hvalid : m.validate = .ok ()) {i : Nat} {slots : List (Nat × String)} :
    (i, slots) ∈ (placedNames m).locals ↔
      ∃ f ∈ m.functions, m.index? f.name = some i
        ∧ slots = f.slotNames.zipIdx.map Prod.swap := by
  rw [mem_locals_placedNames]
  constructor
  · intro h
    obtain ⟨k, f, hf, rfl, hslots⟩ := h
    have hindex := (Module.index?_eq_some_iff hvalid).mpr (Module.callables_function hf)
    exact ⟨f, List.mem_of_getElem? hf, hindex, hslots⟩
  · intro h
    obtain ⟨f, hf, hindex, hslots⟩ := h
    obtain ⟨k, hk⟩ := List.mem_iff_getElem?.mp hf
    have hplace := (Module.index?_eq_some_iff hvalid).mpr (Module.callables_function hk)
    rw [hindex] at hplace
    exact ⟨k, f, hk, Option.some.inj hplace, hslots⟩

theorem FunctionType.results_ofTypes (params : List ValueType) (result : ValueType) :
    (FunctionType.ofTypes params result).results = if result = .void then [] else [result] := by
  cases result <;> rfl

/-- The linked sections of a valid module are coherent, together with
its names. Each field is one of the lemmas on linked sections; what is
left is to bring names and indices together. -/
theorem Linked.coherent {b : Binary} (h : Linked m b) (hvalid : m.validate = .ok ()) :
    Coherent m b (placedNames m) where
  index _ _ := Module.index?_eq_some_iff hvalid
  map name := congrFun (get?_indexMap hvalid) name
  calls := h.codes.imp fun _ _ hcode => functionCode_callees hvalid hcode
  exports := h.exports
  functionNames i name := by
    rw [mem_functions_placedNames, Module.index?_eq_some_iff hvalid]
  slotNames i slots := mem_locals_iff hvalid
  typed i name params result hi := by
    obtain ⟨t, ht, hplace⟩ := h.exists_typeIndex hi
    refine ⟨t, ht, ?_⟩
    rw [← FunctionType.results_ofTypes params result]
    exact hplace
  distinct := h.distinct
  shared i j name name' params params' result result' hi hj := by
    obtain ⟨t, ht, hplace⟩ := h.exists_typeIndex hi
    obtain ⟨t', ht', hplace'⟩ := h.exists_typeIndex hj
    rw [ht, ht', Option.some_inj, place_inj h.distinct hplace hplace', FunctionType.ofTypes_inj]

/-- The index spaces of a valid module are coherent. Its sections can
always be linked and its names always be written, so this is so also
where the data of the module keeps it from being emitted; and every
binary that is emitted has these names, if it has any, and is coherent
with them. -/
theorem validate_coherent {m : Module} (hvalid : m.validate = .ok ()) :
    ∃ b names, link m = .ok b ∧ moduleNames m (indexMap m) = .ok names ∧ Coherent m b names
      ∧ ∀ named b', binary m named = .ok b' →
          Coherent m b' names ∧ b'.names = if named then some names else none := by
  obtain ⟨b, hb⟩ := exists_link hvalid
  refine ⟨b, placedNames m, hb, moduleNames_eq hvalid, (linked_of_link hvalid hb).coherent hvalid,
    fun named b' hb' => ⟨?_, names_of_binary hb'⟩⟩
  exact (linked_of_binary hb').coherent hvalid

end Wasm

/-- A module that no program is lowered to: one function has a parameter
of the type `void`, and the other has a loop in a block with the same
label, a call among the arguments of a call, and accesses of both types. -/
def Module.crossing : Module where
  imports := [⟨"next", "env", "next", [.i32], .i32⟩]
  functions :=
    [{ name := "again", params := [.i32, .void], locals := [], result := .i32
       body := [.returnValue (.call "next" [.get 0 .i32] .i32)]
       slotNames := ["n", "nothing"], kind := .user },
     { name := "run", params := [.i32], locals := [.f64], result := .void
       body :=
         [.block "over"
           [.loop "over"
             [.set 1 (.load .f64 (.get 0 .i32)),
              .branchIf "over"
                (.call "again" [.call "next" [.load .i32 (.const (.i32 8))] .i32,
                  .store .f64 (.get 0 .i32) (.get 1 .f64)] .i32) .nonzero]]]
       slotNames := ["n", "x"], kind := .user }]
  exports := [⟨"run", "main"⟩]
  memory := {}

namespace Wasm

variable {m : Module}

/-- In `crossing` the import and the function with a parameter of the
type `void` have one type index, and the calls are written in the order
in which they are done. -/
theorem crossing_coherent :
    ∃ b names, link .crossing = .ok b ∧ moduleNames .crossing (indexMap .crossing) = .ok names
      ∧ b.typeIndices = [0, 0, 1]
      ∧ b.codes.map (fun c => c.instructions.filterMap Instruction.callee?) = [[0], [0, 1]]
      ∧ Coherent .crossing b names := by
  have hvalid : Module.crossing.validate = .ok () := by decide
  obtain ⟨b, names, hb, hnames, hcoherent, -⟩ := validate_coherent hvalid
  refine ⟨b, names, hb, hnames, ?_, ?_, hcoherent⟩
  · cases hb
    decide
  · cases hb
    decide

-- ============================================================= failures

/-- Only an offset can keep segments from being written. -/
theorem dataEntries_eq_error {ss : List Segment} (h : ¬ ∀ s ∈ ss, s.offset < 0x80000000) :
    ∃ s ∈ ss, 0x80000000 ≤ s.offset ∧ dataEntries ss = .error (.offsetTooLarge s.offset) := by
  induction ss with
  | nil => exact absurd (List.forall_mem_nil _) h
  | cons s ss ih =>
    rw [dataEntries]
    by_cases hs : s.offset < 0x80000000
    · have hrest : ¬ ∀ s ∈ ss, s.offset < 0x80000000 := fun hss =>
        h (List.forall_mem_cons.mpr ⟨hs, hss⟩)
      obtain ⟨s', hmem, hoffset, herror⟩ := ih hrest
      rw [if_pos hs, herror]
      exact ⟨s', List.mem_cons_of_mem _ hmem, hoffset, rfl⟩
    · rw [if_neg hs]
      exact ⟨s, List.mem_cons_self, UInt32.not_lt.mp hs, rfl⟩

/-- Loads and stores of a valid module are of `i32` and `f64` values
only. -/
theorem access_cases (hvalid : m.validate = .ok ()) {f : Function} (hf : f ∈ m.functions) :
    (∀ t a, .load t a ∈ Expr.walkAll f.body → t = .i32 ∨ t = .f64)
      ∧ ∀ t a v, .store t a v ∈ Expr.walkAll f.body → t = .i32 ∨ t = .f64 := by
  have hbodies := Module.checkBodies_eq_ok.mp (Module.validate_eq_ok.mp hvalid).2.2.2
  have hchecked := Expr.exists_check_of_mem_walkAll f.body (hbodies f hf)
  refine ⟨fun t a hmem => ?_, fun t a v hmem => ?_⟩
  · obtain ⟨labels, hcheck⟩ := hchecked _ hmem
    exact (Expr.check_load.mp hcheck).2.2
  · obtain ⟨labels, hcheck⟩ := hchecked _ hmem
    exact (Expr.check_store.mp hcheck).2.2.1

/-- Nothing but the offset of a segment can fail behind the checks of a
module. Every function has its code, so that no label and no callee is
missing; an access that is not of an `f64` is of an `i32`; every
callable function and every exported one has its index in the map; and
all names can be written. -/
theorem validate_encodable {m : Module} (hvalid : m.validate = .ok ()) :
    (∀ f ∈ m.functions, (∃ entry, functionCode (indexMap m) f = .ok entry)
        ∧ (∀ t a, .load t a ∈ Expr.walkAll f.body → t ≠ .f64 → t = .i32)
        ∧ ∀ t a v, .store t a v ∈ Expr.walkAll f.body → t ≠ .f64 → t = .i32)
      ∧ (∀ name ∈ m.callables, ∃ i, (indexMap m).get? name = some i ∧ m.index? name = some i)
      ∧ (∀ e ∈ m.exports, ∃ i, (indexMap m).get? e.function = some i
          ∧ m.index? e.function = some i)
      ∧ (∃ names, moduleNames m (indexMap m) = .ok names)
      ∧ ∀ names, (∃ b, binary m names = .ok b)
          ∨ ∃ s ∈ m.memory.segments, 0x80000000 ≤ s.offset
              ∧ binary m names = .error (.offsetTooLarge s.offset) := by
  have hmap : ∀ {name i}, m.index? name = some i →
      ∃ i, (indexMap m).get? name = some i ∧ m.index? name = some i := by
    intro name i hi
    exact ⟨i, (congrFun (get?_indexMap hvalid) name).trans hi, hi⟩
  refine ⟨fun f hf => ⟨exists_functionCode hvalid hf, ?_, ?_⟩, fun name hname => ?_, fun e he => ?_,
    ⟨_, moduleNames_eq hvalid⟩, fun names => ?_⟩
  · exact fun t a hmem hne => ((access_cases hvalid hf).1 t a hmem).resolve_right hne
  · exact fun t a v hmem hne => ((access_cases hvalid hf).2 t a v hmem).resolve_right hne
  · obtain ⟨i, hi⟩ := exists_depth hname
    exact hmap ((m.index?_eq name).trans hi)
  · obtain ⟨entry, i, hindex, -⟩ := exists_exportEntry hvalid he
    exact hmap hindex
  · obtain ⟨linked, hlink⟩ := exists_link hvalid
    by_cases hoffsets : ∀ s ∈ m.memory.segments, s.offset < 0x80000000
    · exact .inl ⟨_, binary_eq_ok.mpr ⟨hvalid, hoffsets, linked, hlink, rfl⟩⟩
    · obtain ⟨s, hs, hoffset, herror⟩ := dataEntries_eq_error hoffsets
      refine .inr ⟨s, hs, hoffset, ?_⟩
      unfold binary
      rw [hvalid, hlink, herror]
      rfl

/-- The functions of `crossing` have their code, and its only segment is
low enough. -/
theorem crossing_encodable :
    Module.crossing.validate = .ok ()
      ∧ (∀ f ∈ Module.crossing.functions, ∃ entry, functionCode (indexMap .crossing) f = .ok entry)
      ∧ ∀ names, ∃ b, binary .crossing names = .ok b := by
  have hvalid : Module.crossing.validate = .ok () := by decide
  obtain ⟨hfunctions, -, -, -, hbinary⟩ := validate_encodable hvalid
  refine ⟨hvalid, fun f hf => (hfunctions f hf).1, fun names => ?_⟩
  rcases hbinary names with hb | ⟨s, hs, hoffset, -⟩
  · exact hb
  · have hlow : ∀ s ∈ Module.crossing.memory.segments, s.offset < 0x80000000 := by decide
    exact absurd (hlow s hs) (UInt32.not_lt.mpr hoffset)

end Wasm

end CallFlow
