/-
A table of names under any use.

A table answers from three fields: the map says what slot a name has, the list what name a slot
has, and the counter how many parameters there are. Nothing obliges the user of a table to declare
the parameters first, to leave out a name that is taken or to stop at a refusal. So a history is
any list of declarations, and what has to be shown is that the fields never come apart.

# The invariant

`InStep t ds` says that the fields of `t` are three views of one list of declarations `ds`. It holds
of the empty table and `ds = []`. A declaration is refused exactly when its name is in the list
(`InStep.declareAs_eq`): only the map is asked, and it is the invariant that lets the map speak for
the list. A refusal changes nothing, and a declaration that is granted adds one entry to each field
and so one to `ds` (`InStep.push`). By induction over the history the table is in step with the
declarations that were granted (`inStep_after`), and all that can be asked of it is read off their
list (`InStep.records`).
-/
import CallFlow.Slot
import CallFlow.Proofs.Dictionary

namespace CallFlow

/-- A name that takes a slot. -/
structure Declaration where
  name : String
  type : ValueType
  origin : Origin
  deriving DecidableEq

/-- The slot with a number that a declaration takes. -/
def Declaration.slot (d : Declaration) (index : Nat) : Slot where
  index := index
  type := d.type
  origin := d.origin

namespace SymbolTable

-- ================================================= one more declaration

/-- The table with one more declaration in each of its fields. -/
def push (t : SymbolTable) (d : Declaration) : SymbolTable where
  symbols := t.symbols.insert d.name (d.slot t.size)
  names := t.names ++ [d.name]
  parameterCount := if d.origin = .parameter then t.parameterCount + 1 else t.parameterCount

/-- The table with more declarations. -/
def pushAll (t : SymbolTable) (ds : List Declaration) : SymbolTable :=
  ds.foldl push t

/-- A declaration comes last among the names, and so takes the next
number. -/
theorem names_push (t : SymbolTable) (d : Declaration) :
    (t.push d).names = t.names ++ [d.name] := rfl

/-- A pushed name is found in its new slot, and all others where they
were. -/
theorem lookup?_push (t : SymbolTable) (d : Declaration) (name : String) :
    (t.push d).lookup? name = if name = d.name then some (d.slot t.size) else t.lookup? name :=
  Dictionary.get?_insert _ _ _ _

/-- A declaration and those after it are fresh exactly when all their
names together are. -/
theorem nodup_push_append {t : SymbolTable} {d : Declaration} {names : List String} :
    d.name ∉ t.names ∧ ((t.push d).names ++ names).Nodup ↔
      (t.names ++ d.name :: names).Nodup :=
  nodup_append_cons

theorem pushAll_cons (t : SymbolTable) (d : Declaration) (ds : List Declaration) :
    t.pushAll (d :: ds) = (t.push d).pushAll ds := rfl

theorem pushAll_append (t : SymbolTable) (ds es : List Declaration) :
    t.pushAll (ds ++ es) = (t.pushAll ds).pushAll es :=
  List.foldl_append

/-- Declarations come behind what a table has, each under its own name. -/
theorem names_pushAll (t : SymbolTable) (ds : List Declaration) :
    (t.pushAll ds).names = t.names ++ ds.map Declaration.name := by
  induction ds generalizing t with
  | nil => exact (List.append_nil _).symm
  | cons d ds ih =>
    rw [pushAll_cons, ih, names_push, List.append_assoc]
    rfl

-- ================================================== the fields in step

/-- The three fields of a table are in step: they are views of one list
of declarations without a repeated name, in which a declaration stands
at the number of its slot. -/
structure InStep (t : SymbolTable) (ds : List Declaration) : Prop where
  names : t.names = ds.map Declaration.name
  nodup : t.names.Nodup
  /-- The map leads each name to the place that it has in the list. -/
  found : ∀ (i : Nat) (d : Declaration), ds[i]? = some d → t.lookup? d.name = some (d.slot i)
  /-- The map has no other name. -/
  absent : ∀ name, name ∉ t.names → t.lookup? name = none
  parameterCount : t.parameterCount = ds.countP fun d => d.origin = .parameter

theorem inStep_empty : InStep {} [] where
  names := rfl
  nodup := List.nodup_nil
  found := nofun
  absent _ _ := rfl
  parameterCount := rfl

namespace InStep

variable {t : SymbolTable} {ds : List Declaration}

/-- A table in step with its declarations has as many slots as there are
of them. -/
theorem size_eq (h : t.InStep ds) : t.size = ds.length := by
  rw [size, h.names, List.length_map]

/-- The names of the declarations in a list are the names in the table. -/
theorem name_mem (h : t.InStep ds) {i : Nat} {d : Declaration} (hd : ds[i]? = some d) :
    d.name ∈ t.names := by
  rw [h.names]
  exact List.mem_map_of_mem (List.mem_of_getElem? hd)

/-- The map has exactly the names of the list. -/
theorem lookup?_isSome (h : t.InStep ds) {name : String} :
    (t.lookup? name).isSome ↔ name ∈ t.names := by
  constructor
  · intro hsome
    by_contra hname
    rw [h.absent name hname] at hsome
    cases hsome
  · intro hname
    rw [h.names] at hname
    obtain ⟨d, hd, rfl⟩ := List.mem_map.mp hname
    obtain ⟨i, hi⟩ := List.mem_iff_getElem?.mp hd
    rw [h.found i d hi]
    rfl

/-- The slot of a name is that of the declaration at its number. -/
theorem lookup?_eq_some (h : t.InStep ds) {name : String} {slot : Slot} :
    t.lookup? name = some slot ↔
      ∃ d, ds[slot.index]? = some d ∧ d.name = name ∧ slot = d.slot slot.index := by
  constructor
  · intro hslot
    have hname : name ∈ t.names := h.lookup?_isSome.mp (by rw [hslot]; rfl)
    rw [h.names] at hname
    obtain ⟨d, hd, rfl⟩ := List.mem_map.mp hname
    obtain ⟨i, hi⟩ := List.mem_iff_getElem?.mp hd
    rw [h.found i d hi] at hslot
    cases hslot
    exact ⟨d, hi, rfl, rfl⟩
  · intro hfound
    obtain ⟨d, hd, rfl, hslot⟩ := hfound
    rw [hslot]
    exact h.found slot.index d hd

/-- A declaration of a new name keeps the fields in step. What the map
says of the names before it does not change, since none of them is the
new one. -/
theorem push (h : t.InStep ds) {d : Declaration} (hfresh : d.name ∉ t.names) :
    (t.push d).InStep (ds ++ [d]) where
  names := by rw [names_push, h.names, List.map_append, List.map_singleton]
  nodup := by
    rw [names_push, ← List.concat_eq_append]
    exact h.nodup.concat hfresh
  found i d' hd' := by
    rw [lookup?_push]
    rw [List.getElem?_append] at hd'
    by_cases hi : i < ds.length
    · rw [if_pos hi] at hd'
      have hother : d'.name ≠ d.name := fun hname => hfresh (hname ▸ h.name_mem hd')
      rw [if_neg hother]
      exact h.found i d' hd'
    · rw [if_neg hi, List.getElem?_singleton] at hd'
      obtain ⟨hlast, hd'⟩ := Option.ite_none_right_eq_some.mp hd'
      cases hd'
      have hsize : t.size = i := by
        rw [h.size_eq]
        omega
      rw [if_pos rfl, hsize]
  absent name hname := by
    rw [names_push, List.mem_append, List.mem_singleton, not_or] at hname
    rw [lookup?_push, if_neg hname.2]
    exact h.absent name hname.1
  parameterCount := by
    rw [List.countP_append, ← h.parameterCount, List.countP_singleton]
    unfold SymbolTable.push
    by_cases horigin : d.origin = .parameter
    · simp [horigin]
    · simp [horigin]

/-- Declarations of new names, all different, keep the fields in step. -/
theorem pushAll (h : t.InStep ds) {es : List Declaration}
    (hnodup : (t.names ++ es.map Declaration.name).Nodup) : (t.pushAll es).InStep (ds ++ es) := by
  induction es generalizing t ds with
  | nil =>
    rw [List.append_nil]
    exact h
  | cons d es ih =>
    obtain ⟨hfresh, hrest⟩ := nodup_push_append.mpr hnodup
    have hds : ds ++ d :: es = (ds ++ [d]) ++ es := by rw [List.append_assoc, List.singleton_append]
    rw [hds]
    exact ih (h.push hfresh) hrest

/-- A name that is taken is refused where it is written, and the table
stays as it is. Any other name takes the next slot. The origin only
decides which of the three operations is meant; what they do to the
fields is the same but for the number of parameters. -/
theorem declareAs_eq (h : t.InStep ds) (origin : Origin) (name : String) (type : ValueType)
    (span : Option Span) :
    t.declareAs origin name type span
      = if name ∈ t.names then (.error (.duplicateDeclaration name span), t)
        else (.ok ⟨t.size, type, origin⟩, t.push ⟨name, type, origin⟩) := by
  have hdeclare : t.declare name type origin span
      = if name ∈ t.names then (.error (.duplicateDeclaration name span), t)
        else (.ok ⟨t.size, type, origin⟩,
          { t with symbols := t.symbols.insert name ⟨t.size, type, origin⟩
                   names := t.names ++ [name] }) := by
    have hmap : t.symbols.contains name = true ↔ name ∈ t.names := h.lookup?_isSome
    simp only [declare, hmap]
    rfl
  by_cases hname : name ∈ t.names
  · rw [if_pos hname] at hdeclare ⊢
    cases origin with
    | parameter => rw [declareAs, declareParameter, hdeclare]
    | localVariable => exact hdeclare
    | sentinel => exact hdeclare
  · rw [if_neg hname] at hdeclare ⊢
    cases origin with
    | parameter =>
      rw [declareAs, declareParameter, hdeclare]
      rfl
    | localVariable => exact hdeclare
    | sentinel => exact hdeclare

/-- Looking up the names one by one gives the slots of the declarations
one by one. -/
theorem map_lookup?_names (h : t.InStep ds) :
    t.names.map t.lookup? = (ds.zipIdx.map fun p => p.1.slot p.2).map some := by
  refine List.ext_getElem? fun i => ?_
  rw [h.names, List.getElem?_map, List.getElem?_map, List.getElem?_map, List.getElem?_map,
    List.getElem?_zipIdx]
  cases hd : ds[i]? with
  | none => rfl
  | some d => simp only [Option.map_some, h.found i d hd, Nat.zero_add]

/-- No name is missing from the map, so every declaration has its slot. -/
theorem slots_eq (h : t.InStep ds) : t.slots = ds.zipIdx.map fun p => p.1.slot p.2 := by
  have hfilter : t.slots = (t.names.map t.lookup?).filterMap id := by
    rw [List.filterMap_map]
    rfl
  rw [hfilter, h.map_lookup?_names, List.filterMap_map]
  exact List.filterMap_some

end InStep

/-- A table that is filled with distinct names is in step with their
list. -/
theorem inStep_pushAll {ds : List Declaration} (h : (ds.map Declaration.name).Nodup) :
    (SymbolTable.pushAll {} ds).InStep ds :=
  inStep_empty.pushAll h

-- =============================================================== views

/-- Selecting slots by what their declarations say. -/
theorem types_filter_slots {p : Slot → Bool} {q : Declaration → Bool}
    (h : ∀ d i, p (d.slot i) = q d) (ds : List Declaration) (n : Nat) :
    ((((ds.zipIdx n).map fun x => x.1.slot x.2).filter p).map Slot.type)
      = (ds.filter q).map Declaration.type := by
  induction ds generalizing n with
  | nil => rfl
  | cons d ds ih =>
    rw [List.zipIdx_cons, List.map_cons, List.filter_cons, List.filter_cons, h d n]
    by_cases hq : q d = true
    · rw [if_pos hq, if_pos hq, List.map_cons, List.map_cons, ih]
      rfl
    · rw [if_neg hq, if_neg hq, ih]

/-- A table records declarations in order: all its views are views of
their list. -/
structure Records (t : SymbolTable) (ds : List Declaration) : Prop where
  /-- The slots are numbered by position, with the types and origins of
  the declarations. -/
  slots : t.slots = ds.zipIdx.map fun p => p.1.slot p.2
  /-- Every name in the table is found, and has the slot at its own
  position. -/
  found : t.names.map t.lookup? = t.slots.map some
  /-- Names and numbers lead to each other. -/
  inverse : ∀ name i, (∃ s, t.lookup? name = some s ∧ s.index = i) ↔ t.nameOf? i = some name
  /-- The names that lead to a number are those of the declarations. -/
  named : ∀ name, (t.lookup? name).isSome ↔ name ∈ ds.map Declaration.name
  /-- The numbers that lead to a name are those below the size. -/
  numbered : ∀ i, (t.nameOf? i).isSome ↔ i < t.size
  size : t.size = ds.length
  parameterCount : t.parameterCount = t.slots.countP (fun s => s.origin = .parameter)
    ∧ t.parameterCount = ds.countP fun d => d.origin = .parameter
  localTypes : t.localTypes = (t.slots.filter fun s => s.origin ≠ .parameter).map Slot.type
    ∧ t.localTypes = (ds.filter fun d => d.origin ≠ .parameter).map Declaration.type

namespace InStep

variable {t : SymbolTable} {ds : List Declaration}

/-- Numbers lead to the names of the declarations. -/
theorem nameOf?_eq (h : t.InStep ds) (i : Nat) : t.nameOf? i = ds[i]?.map Declaration.name := by
  rw [nameOf?, h.names, List.getElem?_map]

/-- The counter, which no view of the slots reads, counts those of them
that are parameters. -/
theorem parameterCount_eq (h : t.InStep ds) :
    t.parameterCount = t.slots.countP fun s => s.origin = .parameter := by
  have hcount : ∀ l : List (Declaration × Nat),
      (l.map fun p => p.1.slot p.2).countP (fun s => s.origin = .parameter)
        = (l.map Prod.fst).countP fun d => d.origin = .parameter := by
    intro l
    rw [List.countP_map, List.countP_map]
    rfl
  rw [h.slots_eq, hcount, List.zipIdx_map_fst]
  exact h.parameterCount

/-- The parameters are the declarations of that origin. -/
theorem parameterTypes_eq (h : t.InStep ds) :
    t.parameterTypes = (ds.filter fun d => d.origin = .parameter).map Declaration.type := by
  rw [parameterTypes, h.slots_eq]
  refine types_filter_slots (fun d i => ?_) ds 0
  rw [Bool.eq_iff_iff]
  simp [Slot.isParameter, Declaration.slot]

/-- The locals are the declarations that are no parameters. -/
theorem localTypes_eq (h : t.InStep ds) :
    t.localTypes = (ds.filter fun d => d.origin ≠ .parameter).map Declaration.type := by
  rw [localTypes, h.slots_eq]
  refine types_filter_slots (fun d i => ?_) ds 0
  rw [Bool.eq_iff_iff]
  simp [Slot.isParameter, Declaration.slot]

/-- Fields in step make views that agree. By names, by numbers and in
order, the table shows the same slots. -/
theorem records (h : t.InStep ds) : t.Records ds where
  slots := h.slots_eq
  found := by rw [h.map_lookup?_names, h.slots_eq]
  inverse := by
    intro name i
    rw [h.nameOf?_eq, Option.map_eq_some_iff]
    constructor
    · intro hs
      obtain ⟨s, hs, rfl⟩ := hs
      obtain ⟨d, hd, hname, -⟩ := h.lookup?_eq_some.mp hs
      exact ⟨d, hd, hname⟩
    · intro hd
      obtain ⟨d, hd, rfl⟩ := hd
      exact ⟨d.slot i, h.found i d hd, rfl⟩
  named := by
    intro name
    rw [h.lookup?_isSome, h.names]
  numbered := by
    intro i
    rw [h.nameOf?_eq, Option.isSome_map, h.size_eq]
    simp
  size := h.size_eq
  parameterCount := ⟨h.parameterCount_eq, h.parameterCount⟩
  localTypes := by
    refine ⟨?_, h.localTypes_eq⟩
    refine congrArg (List.map Slot.type) (List.filter_congr fun s _ => ?_)
    rw [Bool.eq_iff_iff]
    simp [Slot.isParameter]

end InStep

-- ============================================================ histories

/-- A declaration that is asked for, with the place that it is written
at. -/
structure Request where
  declaration : Declaration
  span : Option Span

/-- The name that is to be declared. -/
def Request.name (r : Request) : String :=
  r.declaration.name

/-- The answer to a request, and the table after it. -/
def answer (t : SymbolTable) (r : Request) : Except Error Slot × SymbolTable :=
  t.declareAs r.declaration.origin r.name r.declaration.type r.span

/-- The table after a history of requests. -/
def after (t : SymbolTable) : List Request → SymbolTable
  | [] => t
  | r :: rs => (t.answer r).2.after rs

/-- The declarations of a history that succeed, in order. -/
def granted (t : SymbolTable) : List Request → List Declaration
  | [] => []
  | r :: rs =>
    match t.answer r with
    | (.ok _, t') => r.declaration :: t'.granted rs
    | (.error _, t') => t'.granted rs

variable {t : SymbolTable} {ds : List Declaration}

/-- One request: it is refused if its name is taken, and else takes the
next slot. -/
theorem InStep.answer_eq (h : t.InStep ds) (r : Request) :
    t.answer r = if r.name ∈ t.names then (.error (.duplicateDeclaration r.name r.span), t)
      else (.ok (r.declaration.slot t.size), t.push r.declaration) :=
  h.declareAs_eq r.declaration.origin r.name r.declaration.type r.span

/-- After a history the fields are in step with the declarations that
were granted in it. -/
theorem inStep_after (h : t.InStep ds) (rs : List Request) :
    (t.after rs).InStep (ds ++ t.granted rs) := by
  induction rs generalizing t ds with
  | nil =>
    rw [granted, List.append_nil]
    exact h
  | cons r rs ih =>
    rw [after, granted, h.answer_eq]
    by_cases hname : r.name ∈ t.names
    · rw [if_pos hname]
      exact ih h
    · rw [if_neg hname]
      have hstep := ih (h.push hname)
      rw [List.append_assoc, List.singleton_append] at hstep
      exact hstep

/-- Every name that was asked for is declared, be it by an earlier
request. -/
theorem mem_names_after (h : t.InStep ds) {rs : List Request} {name : String} :
    name ∈ (t.after rs).names ↔ name ∈ t.names ∨ name ∈ rs.map Request.name := by
  induction rs generalizing t ds with
  | nil => simp [after]
  | cons r rs ih =>
    rw [after, h.answer_eq, List.map_cons, List.mem_cons]
    by_cases hr : r.name ∈ t.names
    · rw [if_pos hr, ih h]
      constructor
      · exact Or.imp_right .inr
      · intro hfound
        rcases hfound with hname | rfl | hname
        · exact .inl hname
        · exact .inl hr
        · exact .inr hname
    · rw [if_neg hr, ih (h.push hr), names_push, List.mem_append, List.mem_singleton, or_assoc]
      rfl

/-- A table stays consistent under any use. After any history its fields
are in step with the declarations that succeeded, so that it records
them in order, and these have the names of all that were asked for. A
further declaration is refused exactly when its name was asked for
before; the error stands at the place of that declaration, and the table
is not changed by it. -/
theorem consistent_after_history (rs : List Request) :
    (after {} rs).InStep (granted {} rs)
      ∧ (after {} rs).Records (granted {} rs)
      ∧ (∀ name, name ∈ (granted {} rs).map Declaration.name ↔ name ∈ rs.map Request.name)
      ∧ ∀ r, (after {} rs).answer r = if r.name ∈ rs.map Request.name then
          (.error (.duplicateDeclaration r.name r.span), after {} rs)
        else
          (.ok (r.declaration.slot (granted {} rs).length), (after {} rs).push r.declaration) := by
  have hstep : (after {} rs).InStep (granted {} rs) := inStep_after inStep_empty rs
  have hmem : ∀ name, name ∈ (after {} rs).names ↔ name ∈ rs.map Request.name := by
    intro name
    rw [mem_names_after inStep_empty]
    exact or_iff_right List.not_mem_nil
  refine ⟨hstep, hstep.records, fun name => ?_, fun r => ?_⟩
  · rw [← hstep.names, hmem]
  · simp only [hstep.answer_eq, hmem, hstep.size_eq]

end SymbolTable

end CallFlow
