/-
The two tables of an emission: the index of each name, and the place of each type.

Code, exports and names refer to functions by the index that a map gives them. The map is collected
from the names in order, so that a repeated name would have its last place there, while a search
through the module finds the first (`Module.index?`). In a valid module no name is repeated, and
the two agree (`get?_indexMap`).

# The type table

The type table grows while the imports and then the functions are written. Each of them asks for
its type and is answered with a place, and nobody looks at the table again. That the places are
right in the end rests on an invariant, `TypeTable.InStep`: the map leads a type to a place exactly
when the type stands there. One request keeps it, adds at most the type that was asked for, and
adds it behind the others, so that the places given out before stay what they are. `Answers` says
this of any number of requests, and `Answers.trans` puts two histories together: the loop over the
imports (`importEntries_answers`) and the loop over the functions (`functionEntries_answers`).
-/
import CallFlow.Proofs.Code.Checks
import CallFlow.Proofs.Dictionary
import CallFlow.Wasm.Emit

namespace CallFlow

-- ==================================================== names and places

/-- A name that occurs once is found at its place. -/
theorem findIdx?_eq_some_of_nodup {l : List String} (h : l.Nodup) {i : Nat} {name : String} :
    l.findIdx? (fun n => n == name) = some i ↔ l[i]? = some name := by
  rw [List.findIdx?_eq_some_iff_getElem, List.getElem?_eq_some_iff]
  constructor
  · intro hfound
    obtain ⟨hi, heq, -⟩ := hfound
    exact ⟨hi, beq_iff_eq.mp heq⟩
  · intro hget
    obtain ⟨hi, heq⟩ := hget
    refine ⟨hi, beq_iff_eq.mpr heq, fun j hj hother => ?_⟩
    have hsame : l[j] = l[i] := (beq_iff_eq.mp hother).trans heq.symm
    have hplace : j = i := (h.getElem_inj_iff).mp hsame
    omega

namespace Module

variable {m : Module}

/-- To search the imports and then the functions is to search their
names in order. -/
theorem index?_eq (m : Module) (name : String) :
    m.index? name = m.callables.findIdx? fun n => n == name := by
  unfold index? callables
  rw [List.findIdx?_append, List.findIdx?_map, List.findIdx?_map, List.length_map]
  show _ = (m.imports.findIdx? fun i => i.name == name).or
    ((m.functions.findIdx? fun f => f.name == name).map (· + m.imports.length))
  cases m.imports.findIdx? fun i => i.name == name with
  | some i => rfl
  | none => simp only [Option.none_or, Nat.add_comm]

/-- An index is the number of one of the callable functions. -/
theorem index?_lt {i : Nat} {name : String} (h : m.index? name = some i) :
    i < m.callables.length := by
  rw [index?_eq] at h
  exact (List.findIdx?_eq_some_iff_findIdx_eq.mp h).1

/-- The callable names of a valid module differ, which makes an index a
name for a function. -/
theorem nodup_callables (hvalid : m.validate = .ok ()) : m.callables.Nodup :=
  checkNames_eq_ok.mp (validate_eq_ok.mp hvalid).1

/-- In a valid module the index of a name is its place. -/
theorem index?_eq_some_iff (hvalid : m.validate = .ok ()) {i : Nat} {name : String} :
    m.index? name = some i ↔ m.callables[i]? = some name := by
  rw [index?_eq]
  exact findIdx?_eq_some_of_nodup (nodup_callables hvalid)

/-- The functions of a module come behind its imports. -/
theorem callables_function {i : Nat} {f : Function} (h : m.functions[i]? = some f) :
    m.callables[m.imports.length + i]? = some f.name := by
  unfold callables
  rw [getElem?_map_append, List.getElem?_map, h]
  rfl

end Module

namespace Wasm

/-- The map that an emission collects gives every name the index that a
search finds. -/
theorem get?_indexMap {m : Module} (hvalid : m.validate = .ok ()) :
    (indexMap m).get? = m.index? := by
  have hkeys : (m.callables.zipIdx.map Prod.fst).Nodup := by
    rw [List.zipIdx_map_fst]
    exact Module.nodup_callables hvalid
  funext name
  refine Option.ext fun i => ?_
  rw [Module.index?_eq_some_iff hvalid, indexMap, Dictionary.get?_ofPairs hkeys]
  exact List.mk_mem_zipIdx_iff_getElem?

-- ====================================================== the type table

namespace TypeTable

/-- Map and list of a table are in step: no type stands twice, and the
map leads a type to a place exactly when it stands there. -/
structure InStep (t : TypeTable) : Prop where
  nodup : t.types.Nodup
  places : ∀ type i, t.indices.get? type = some i ↔ t.types[i]? = some type

/-- What requests for types leave behind, which were answered with
places. -/
structure Answers (t : TypeTable) (asked : List FunctionType) (answered : List Nat)
    (t' : TypeTable) : Prop where
  inStep : t'.InStep
  /-- What was there before stays at its place. -/
  keeps : t.types <+: t'.types
  /-- Each answer is the place of the type that was asked for. -/
  places : List.Forall₂ (fun type i => t'.types[i]? = some type) asked answered
  /-- Nothing is added that was not asked for. -/
  only : ∀ type ∈ t'.types, type ∈ t.types ∨ type ∈ asked

theorem inStep_empty : InStep {} where
  nodup := List.nodup_nil
  places type i := by
    rw [List.getElem?_nil]
    exact iff_of_false nofun nofun

variable {t t' t'' : TypeTable} {asked asked' : List FunctionType} {answered answered' : List Nat}

/-- A place stays the place of its type when more types come behind. -/
theorem getElem?_of_prefix {ts ts' : List FunctionType} (h : ts <+: ts') {i : Nat}
    {type : FunctionType} (hi : ts[i]? = some type) : ts'[i]? = some type := by
  obtain ⟨hlt, rfl⟩ := List.getElem?_eq_some_iff.mp hi
  exact List.prefix_iff_getElem?.mp h i hlt

/-- Without requests nothing changes. -/
theorem InStep.answers_nil (h : t.InStep) : t.Answers [] [] t where
  inStep := h
  keeps := List.prefix_rfl
  places := .nil
  only _ htype := .inl htype

/-- Histories can be joined. The answers of the first are still right
after the second. -/
theorem Answers.trans (h : t.Answers asked answered t') (h' : t'.Answers asked' answered' t'') :
    t.Answers (asked ++ asked') (answered ++ answered') t'' where
  inStep := h'.inStep
  keeps := h.keeps.trans h'.keeps
  places := List.rel_append
    (h.places.imp fun _ _ hplace => getElem?_of_prefix h'.keeps hplace) h'.places
  only type htype := by
    rw [List.mem_append]
    rcases h'.only type htype with hbefore | hnew
    · exact (h.only type hbefore).imp_right .inl
    · exact .inr (.inr hnew)

/-- A type that the map does not have does not stand in the list either. -/
theorem InStep.not_mem (h : t.InStep) {type : FunctionType} (hnone : t.indices.get? type = none) :
    type ∉ t.types := by
  intro hmem
  obtain ⟨i, hi⟩ := List.mem_iff_getElem?.mp hmem
  rw [(h.places type i).mpr hi] at hnone
  cases hnone

/-- A new type comes behind the others, in the list and in the map. The
list gives types by index and the map gives indices by type, and neither
has an entry that the other lacks. -/
theorem InStep.add (h : t.InStep) {key : FunctionType} (hfresh : key ∉ t.types) :
    InStep { types := t.types ++ [key], indices := t.indices.insert key t.types.length } where
  nodup := List.concat_eq_append ▸ h.nodup.concat hfresh
  places type i := by
    rw [Dictionary.get?_insert, List.getElem?_append]
    by_cases hi : i < t.types.length
    · rw [if_pos hi]
      by_cases htype : type = key
      · subst htype
        rw [if_pos rfl, Option.some_inj]
        exact iff_of_false (by omega) fun hget => hfresh (List.mem_of_getElem? hget)
      · rw [if_neg htype]
        exact h.places type i
    · have hnone : t.types[i]? = none := List.getElem?_eq_none (Nat.not_lt.mp hi)
      rw [if_neg hi, List.getElem?_singleton, Option.ite_none_right_eq_some, Option.some_inj]
      by_cases htype : type = key
      · rw [if_pos htype, Option.some_inj]
        exact ⟨fun hlast => ⟨by omega, htype.symm⟩, fun hlast => by omega⟩
      · rw [if_neg htype, h.places, hnone]
        exact iff_of_false nofun fun hlast => htype hlast.2.symm

/-- One request is answered with the place of its type. A type that is
there keeps its index and the table stays, and a new one gets the next. -/
theorem InStep.answers_indexOf (h : t.InStep) (params : List ValueType) (result : ValueType) :
    t.Answers [.ofTypes params result] [(t.indexOf params result).1]
      (t.indexOf params result).2 := by
  cases hget : t.indices.get? (.ofTypes params result) with
  | some i =>
    have hindex : t.indexOf params result = (i, t) := by simp only [indexOf, hget]
    rw [hindex]
    exact { inStep := h
            keeps := List.prefix_rfl
            places := .cons ((h.places _ i).mp hget) .nil
            only := fun _ htype => .inl htype }
  | none =>
    have hindex : t.indexOf params result = (t.types.length,
        { types := t.types ++ [.ofTypes params result]
          indices := t.indices.insert (.ofTypes params result) t.types.length }) := by
      simp only [indexOf, hget]
    rw [hindex]
    exact { inStep := h.add (h.not_mem hget)
            keeps := List.prefix_append _ _
            places := .cons List.getElem?_concat_length .nil
            only := fun _ htype => List.mem_append.mp htype }

end TypeTable

-- ============================================================ two loops

open TypeTable (InStep Answers)

variable {t t' : TypeTable}

/-- The imports ask for their types in order. -/
theorem importEntries_answers (h : t.InStep) (is : List Import) :
    t.Answers (is.map fun i => .ofTypes i.params i.result)
      ((importEntries t is).1.map ImportEntry.type) (importEntries t is).2 := by
  induction is generalizing t with
  | nil => exact h.answers_nil
  | cons i is ih =>
    have hfirst := h.answers_indexOf i.params i.result
    exact hfirst.trans (ih hfirst.inStep)

/-- The imports are entered under their own names, with types that are
theirs in the end. -/
theorem importEntries_entries (h : t.InStep) (is : List Import) :
    List.Forall₂ (fun (i : Import) (e : ImportEntry) => e.module = i.module ∧ e.base = i.base
        ∧ (importEntries t is).2.types[e.type]? = some (.ofTypes i.params i.result))
      is (importEntries t is).1 := by
  induction is generalizing t with
  | nil => exact .nil
  | cons i is ih =>
    have hfirst := h.answers_indexOf i.params i.result
    have hrest := importEntries_answers hfirst.inStep is
    obtain ⟨hplace, -⟩ := List.forall₂_cons.mp hfirst.places
    exact .cons ⟨rfl, rfl, TypeTable.getElem?_of_prefix hrest.keeps hplace⟩ (ih hfirst.inStep)

section Functions

variable {indices : Dictionary String Nat} {fs : List Function} {codes : List CodeEntry}
  {answered : List Nat}

/-- The functions are written one by one: a type is asked for, and the
code follows. -/
theorem functionEntries_cons_eq_ok {f : Function} :
    functionEntries indices t (f :: fs) = .ok (answered, codes, t') ↔
      ∃ code rest codes', functionCode indices f = .ok code
        ∧ functionEntries indices (t.indexOf f.params f.result).2 fs = .ok (rest, codes', t')
        ∧ answered = (t.indexOf f.params f.result).1 :: rest ∧ codes = code :: codes' := by
  rw [functionEntries]
  simp only [bind_eq_ok, pure_eq_ok, Prod.mk.injEq, Prod.exists]
  constructor
  · intro hentries
    obtain ⟨code, hcode, rest, codes', t₁, hrest, rfl, rfl, rfl⟩ := hentries
    exact ⟨code, rest, codes', hcode, hrest, rfl, rfl⟩
  · intro hentries
    obtain ⟨code, rest, codes', hcode, hrest, rfl, rfl⟩ := hentries
    exact ⟨code, hcode, rest, codes', t', hrest, rfl, rfl, rfl⟩

/-- The functions ask for their types in order. -/
theorem functionEntries_answers (h : t.InStep)
    (hfs : functionEntries indices t fs = .ok (answered, codes, t')) :
    t.Answers (fs.map fun f => .ofTypes f.params f.result) answered t' := by
  induction fs generalizing t answered codes with
  | nil =>
    cases hfs
    exact h.answers_nil
  | cons f fs ih =>
    obtain ⟨code, rest, codes', -, hrest, rfl, rfl⟩ := functionEntries_cons_eq_ok.mp hfs
    have hfirst := h.answers_indexOf f.params f.result
    exact hfirst.trans (ih hfirst.inStep hrest)

/-- Each function has its code. -/
theorem functionEntries_codes (hfs : functionEntries indices t fs = .ok (answered, codes, t')) :
    List.Forall₂ (fun f code => functionCode indices f = .ok code) fs codes := by
  induction fs generalizing t answered codes with
  | nil =>
    cases hfs
    exact .nil
  | cons f fs ih =>
    obtain ⟨code, rest, codes', hcode, hrest, rfl, rfl⟩ := functionEntries_cons_eq_ok.mp hfs
    exact .cons hcode (ih hrest)

/-- Functions that have their code are written, whatever types there
are. -/
theorem exists_functionEntries (hfs : ∀ f ∈ fs, ∃ code, functionCode indices f = .ok code)
    (t : TypeTable) :
    ∃ answered codes t', functionEntries indices t fs = .ok (answered, codes, t') := by
  induction fs generalizing t with
  | nil => exact ⟨[], [], t, rfl⟩
  | cons f fs ih =>
    obtain ⟨⟨code, hcode⟩, hfs⟩ := List.forall_mem_cons.mp hfs
    obtain ⟨rest, codes, t', hrest⟩ := ih hfs (t.indexOf f.params f.result).2
    exact ⟨_, _, t', functionEntries_cons_eq_ok.mpr ⟨code, rest, codes, hcode, hrest, rfl, rfl⟩⟩

end Functions

end Wasm

end CallFlow
