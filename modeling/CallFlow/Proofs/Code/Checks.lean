/-
What the checks of a module ask for.

Each check is an equivalence here: it passes exactly when a condition holds, with
no trace of the fault that it would report. The code of a function is checked
node by node, so there is one lemma for each kind of expression, and a list
passes when each of its members does. `Module.validate_eq_ok` is the whole.
-/
import CallFlow.Validity
import CallFlow.Proofs.Basic

namespace CallFlow

-- ========================================================== signatures

/-- The first member with a key is what the lookup of the key finds. -/
theorem map_find?_eq_lookup {α β : Type} (key : α → String) (value : α → β) (l : List α)
    (name : String) :
    (l.find? fun a => key a == name).map value
      = (l.map fun a => (key a, value a)).lookup name := by
  induction l with
  | nil => rfl
  | cons a l ih =>
    rw [List.find?_cons, List.map_cons, List.lookup_cons]
    have hcomm : (name == key a) = (key a == name) := BEq.comm
    rw [hcomm]
    cases key a == name with
    | true => rfl
    | false => exact ih

/-- The signatures of a module, by name. -/
def Module.signatures (m : Module) : List (String × List ValueType × ValueType) :=
  (m.imports.map fun i => (i.name, i.params, i.result))
    ++ m.functions.map fun f => (f.name, f.params, f.result)

/-- To ask the imports and then the functions is to look into one list
of signatures. -/
theorem Module.signature?_eq_lookup (m : Module) (name : String) :
    m.signature? name = m.signatures.lookup name := by
  unfold signature? signatures import? function?
  rw [List.lookup_append, ← map_find?_eq_lookup, ← map_find?_eq_lookup]
  cases m.imports.find? fun i => i.name == name <;> rfl

/-- The callable names are the keys of the signatures, in the same
order. -/
theorem Module.callables_eq_signatures (m : Module) :
    m.callables = m.signatures.map Prod.fst := by
  unfold callables signatures
  rw [List.map_append, List.map_map, List.map_map]
  rfl

/-- What has a signature is callable. -/
theorem Module.mem_callables {m : Module} {name : String}
    {signature : List ValueType × ValueType} (h : m.signature? name = some signature) :
    name ∈ m.callables := by
  rw [signature?_eq_lookup, List.lookup_eq_some_iff] at h
  obtain ⟨front, back, hsignatures, -⟩ := h
  rw [callables_eq_signatures, hsignatures]
  simp

-- ================================================================ code

theorem Function.slotType_eq_ok {f : Function} {i : Nat} {t : ValueType} :
    f.slotType i = .ok t ↔ f.slotType? i = some t := by
  unfold slotType
  cases f.slotType? i with
  | none => exact ⟨nofun, nofun⟩
  | some t' => exact ⟨fun h => by cases h; rfl, fun h => by cases h; rfl⟩

namespace Expr

variable {m : Module} {f : Function} {labels : List String}

/-- A call is checked against the whole signature: the number and the
types of the arguments and the type of the result. -/
theorem checkCall_eq_ok {function : String} {args : List ValueType} {result : ValueType} :
    checkCall m function args result = .ok () ↔ m.signature? function = some (args, result) := by
  unfold checkCall
  cases m.signature? function with
  | none => exact ⟨nofun, nofun⟩
  | some signature =>
    obtain ⟨params, declared⟩ := signature
    simp only [ite_eq_ok, Option.some.injEq, Prod.mk.injEq]
    exact ⟨fun h => ⟨h.1.symm, h.2⟩, fun h => ⟨h.1.symm, h.2⟩⟩

theorem check_get {i : Nat} {t : ValueType} :
    check m f labels (get i t) = .ok () ↔ f.slotType? i = some t := by
  simp only [check, bind_eq_ok, Function.slotType_eq_ok, ite_error_eq_ok, not_not]
  constructor
  · rintro ⟨declared, hslot, rfl⟩
    exact hslot
  · intro h
    exact ⟨t, h, rfl⟩

/-- Assigning asks for a slot of the type of the value, and for a value
that passes. -/
theorem check_set {i : Nat} {v : Expr} :
    check m f labels (set i v) = .ok () ↔
      f.slotType? i = some v.type ∧ check m f labels v = .ok () := by
  simp only [check, bind_eq_ok, Function.slotType_eq_ok, ite_error_eq_ok, not_not]
  constructor
  · rintro ⟨declared, hslot, _, hv, rfl⟩
    exact ⟨hslot, hv⟩
  · rintro ⟨hslot, hv⟩
    exact ⟨v.type, hslot, (), hv, rfl⟩

/-- A call passes if its callee has the signature that the arguments and
the result make, and the arguments pass. -/
theorem check_call {function : String} {args : List Expr} {result : ValueType} :
    check m f labels (call function args result) = .ok () ↔
      m.signature? function = some (args.map type, result)
        ∧ checkAll m f labels args = .ok () := by
  simp only [check, bind_eq_ok]
  constructor
  · rintro ⟨_, hcall, hargs⟩
    exact ⟨checkCall_eq_ok.mp hcall, hargs⟩
  · rintro ⟨hcall, hargs⟩
    exact ⟨(), checkCall_eq_ok.mpr hcall, hargs⟩

/-- A load asks for an address of type `i32`, and there are loads of two
types only. -/
theorem check_load {t : ValueType} {a : Expr} :
    check m f labels (load t a) = .ok () ↔
      check m f labels a = .ok () ∧ a.type = .i32 ∧ (t = .i32 ∨ t = .f64) := by
  simp only [check, bind_eq_ok, checkAddressType, checkAccess, ite_eq_ok]
  constructor
  · rintro ⟨_, ha, _, haddress, haccess⟩
    exact ⟨ha, haddress, haccess⟩
  · rintro ⟨ha, haddress, haccess⟩
    exact ⟨(), ha, (), haddress, haccess⟩

/-- A store asks for an address of type `i32` and for a value of one of
the two types that can be stored. -/
theorem check_store {t : ValueType} {a v : Expr} :
    check m f labels (store t a v) = .ok () ↔
      check m f labels a = .ok () ∧ a.type = .i32 ∧ (t = .i32 ∨ t = .f64)
        ∧ check m f labels v = .ok () ∧ v.type = t := by
  simp only [check, bind_eq_ok, checkAddressType, checkAccess, ite_eq_ok, ite_error_eq_ok, not_not]
  constructor
  · rintro ⟨_, ha, _, haddress, _, haccess, _, hv, htype⟩
    exact ⟨ha, haddress, haccess, hv, htype⟩
  · rintro ⟨ha, haddress, haccess, hv, htype⟩
    exact ⟨(), ha, (), haddress, (), haccess, (), hv, htype⟩

theorem check_returnValue {v : Expr} :
    check m f labels (returnValue v) = .ok () ↔
      check m f labels v = .ok () ∧ v.type = f.result := by
  simp only [check, bind_eq_ok, ite_error_eq_ok, not_not]
  constructor
  · rintro ⟨_, hv, htype⟩
    exact ⟨hv, htype⟩
  · rintro ⟨hv, htype⟩
    exact ⟨(), hv, htype⟩

/-- A return without a value is for functions without a result. -/
theorem check_returnNone : check m f labels returnNone = .ok () ↔ f.result = .void :=
  ite_eq_ok

/-- A branch asks for a label in scope and for a condition of type
`i32`. -/
theorem check_branchIf {l : String} {c : Expr} {test : BranchTest} :
    check m f labels (branchIf l c test) = .ok () ↔
      l ∈ labels ∧ check m f labels c = .ok () ∧ c.type = .i32 := by
  rw [check]
  by_cases hl : l ∈ labels
  · rw [if_neg (by rwa [Bool.not_eq_true', Bool.not_eq_false, List.contains_iff_mem])]
    simp only [bind_eq_ok, ite_error_eq_ok, not_not]
    constructor
    · intro h
      obtain ⟨_, hc, htype⟩ := h
      exact ⟨hl, hc, htype⟩
    · intro h
      exact ⟨(), h.2⟩
  · rw [if_pos (by rwa [Bool.not_eq_true', ← Bool.not_eq_true, List.contains_iff_mem])]
    constructor
    · intro h
      cases h
    · intro h
      exact absurd h.1 hl

theorem checkAll_cons {e : Expr} {es : List Expr} :
    checkAll m f labels (e :: es) = .ok () ↔
      check m f labels e = .ok () ∧ checkAll m f labels es = .ok () := by
  rw [checkAll, bind_eq_ok]
  exact ⟨fun ⟨_, h⟩ => h, fun h => ⟨(), h⟩⟩

/-- A list passes exactly when each member does. -/
theorem checkAll_eq_ok {es : List Expr} :
    checkAll m f labels es = .ok () ↔ ∀ e ∈ es, check m f labels e = .ok () := by
  induction es with
  | nil => exact ⟨fun _ => List.forall_mem_nil _, fun _ => rfl⟩
  | cons e es ih => rw [checkAll_cons, ih, List.forall_mem_cons]

/-- Checks of statements do not depend on what is around them. -/
theorem checkAll_append {es es' : List Expr} :
    checkAll m f labels (es ++ es') = .ok () ↔
      checkAll m f labels es = .ok () ∧ checkAll m f labels es' = .ok () := by
  rw [checkAll_eq_ok, checkAll_eq_ok, checkAll_eq_ok, List.forall_mem_append]

mutual

/-- The check of an expression reaches every expression inside it, with
the labels that are around it there. The recursion is that of the walk;
blocks and loops are where the labels grow. -/
theorem exists_check_of_mem_walk {labels : List String} : ∀ e, check m f labels e = .ok () →
    ∀ e' ∈ e.walk, ∃ labels', check m f labels' e' = .ok ()
  | const c, h, e', he' => by
    obtain rfl := List.mem_singleton.mp he'
    exact ⟨labels, h⟩
  | get i t, h, e', he' => by
    obtain rfl := List.mem_singleton.mp he'
    exact ⟨labels, h⟩
  | set i v, h, e', he' => by
    rcases List.mem_cons.mp he' with rfl | he'
    · exact ⟨labels, h⟩
    · exact exists_check_of_mem_walk v (check_set.mp h).2 e' he'
  | call function args result, h, e', he' => by
    rcases List.mem_cons.mp he' with rfl | he'
    · exact ⟨labels, h⟩
    · exact exists_check_of_mem_walkAll args (check_call.mp h).2 e' he'
  | load t a, h, e', he' => by
    rcases List.mem_cons.mp he' with rfl | he'
    · exact ⟨labels, h⟩
    · exact exists_check_of_mem_walk a (check_load.mp h).1 e' he'
  | store t a v, h, e', he' => by
    obtain ⟨ha, -, -, hv, -⟩ := check_store.mp h
    rw [walk, List.cons_append, List.mem_cons, List.mem_append] at he'
    rcases he' with rfl | he' | he'
    · exact ⟨labels, h⟩
    · exact exists_check_of_mem_walk a ha e' he'
    · exact exists_check_of_mem_walk v hv e' he'
  | returnValue v, h, e', he' => by
    rcases List.mem_cons.mp he' with rfl | he'
    · exact ⟨labels, h⟩
    · exact exists_check_of_mem_walk v (check_returnValue.mp h).1 e' he'
  | returnNone, h, e', he' => by
    obtain rfl := List.mem_singleton.mp he'
    exact ⟨labels, h⟩
  | block l body, h, e', he' => by
    rcases List.mem_cons.mp he' with rfl | he'
    · exact ⟨labels, h⟩
    · exact exists_check_of_mem_walkAll body h e' he'
  | loop l body, h, e', he' => by
    rcases List.mem_cons.mp he' with rfl | he'
    · exact ⟨labels, h⟩
    · exact exists_check_of_mem_walkAll body h e' he'
  | branchIf l c test, h, e', he' => by
    rcases List.mem_cons.mp he' with rfl | he'
    · exact ⟨labels, h⟩
    · exact exists_check_of_mem_walk c (check_branchIf.mp h).2.1 e' he'

/-- The same for the expressions inside a list of checked ones. -/
theorem exists_check_of_mem_walkAll {labels : List String} :
    ∀ es, checkAll m f labels es = .ok () →
      ∀ e' ∈ walkAll es, ∃ labels', check m f labels' e' = .ok ()
  | [], _, e', he' => absurd he' List.not_mem_nil
  | e :: es, h, e', he' => by
    obtain ⟨he, hes⟩ := checkAll_cons.mp h
    rcases List.mem_append.mp he' with he' | he'
    · exact exists_check_of_mem_walk e he e' he'
    · exact exists_check_of_mem_walkAll es hes e' he'

end

end Expr

-- ============================================================= modules

namespace Module

/-- Nothing is reported as repeated exactly when the names differ from
each other and from those before them. The induction is over the names,
with those that were seen as a parameter that grows. -/
theorem repeated?_eq_none {seen names : List String} :
    repeated? seen names = none ↔ names.Nodup ∧ ∀ n ∈ names, n ∉ seen := by
  induction names generalizing seen with
  | nil => exact ⟨fun _ => ⟨List.nodup_nil, List.forall_mem_nil _⟩, fun _ => rfl⟩
  | cons n names ih =>
    rw [repeated?, List.nodup_cons, List.forall_mem_cons]
    by_cases hn : n ∈ seen
    · rw [if_pos hn]
      exact ⟨nofun, fun h => absurd hn h.2.1⟩
    · rw [if_neg hn, ih]
      constructor
      · rintro ⟨hnodup, hnames⟩
        refine ⟨⟨fun hmem => hnames n hmem List.mem_cons_self, hnodup⟩, hn, fun n' hn' hseen => ?_⟩
        exact hnames n' hn' (List.mem_cons_of_mem _ hseen)
      · rintro ⟨⟨hfresh, hnodup⟩, -, hnames⟩
        refine ⟨hnodup, fun n' hn' hmem => ?_⟩
        rcases List.mem_cons.mp hmem with rfl | hseen
        · exact hfresh hn'
        · exact hnames n' hn' hseen

/-- The first check: imports and functions have different names. -/
theorem checkNames_eq_ok {m : Module} : m.checkNames = .ok () ↔ m.callables.Nodup := by
  have h := @repeated?_eq_none [] m.callables
  unfold checkNames
  cases hr : repeated? [] m.callables with
  | none => exact ⟨fun _ => (h.mp hr).1, fun _ => rfl⟩
  | some n =>
    refine ⟨nofun, fun hnodup => ?_⟩
    rw [h.mpr ⟨hnodup, fun _ _ => List.not_mem_nil⟩] at hr
    cases hr

/-- The check of the memory: its maximum is within the limit of the
format, and it starts with no more pages than that. -/
theorem checkMemory_eq_ok {m : Module} :
    m.checkMemory = .ok () ↔
      m.memory.maximumPages ≤ maxPages ∧ m.memory.initialPages ≤ m.memory.maximumPages := by
  unfold checkMemory
  rw [← UInt32.not_lt, ← UInt32.not_lt]
  split
  next h => exact ⟨nofun, fun h' => absurd h h'.1⟩
  next h =>
    split
    next h₂ => exact ⟨nofun, fun h' => absurd h₂ h'.2⟩
    next h₂ => exact ⟨fun _ => ⟨h, h₂⟩, fun _ => rfl⟩

/-- The check of exports: each of them is of a callable function, and
under a name of its own. -/
theorem checkExports_eq_ok {callables used : List String} {exports : List Export} :
    checkExports callables used exports = .ok () ↔
      (∀ e ∈ exports, e.function ∈ callables)
        ∧ repeated? used (exports.map Export.name) = none := by
  induction exports generalizing used with
  | nil => exact ⟨fun _ => ⟨List.forall_mem_nil _, rfl⟩, fun _ => rfl⟩
  | cons e es ih =>
    rw [checkExports, List.forall_mem_cons, List.map_cons, repeated?]
    by_cases hf : e.function ∈ callables
    · rw [if_neg (not_not.mpr hf)]
      by_cases hn : e.name ∈ used
      · rw [if_pos hn, if_pos hn]
        exact ⟨nofun, nofun⟩
      · rw [if_neg hn, if_neg hn, ih]
        exact ⟨fun h => ⟨⟨hf, h.1⟩, h.2⟩, fun h => ⟨h.1.2, h.2⟩⟩
    · rw [if_pos hf]
      exact ⟨nofun, fun h => absurd h.1.1 hf⟩

/-- The last check: every body passes in its own function, with no label
in scope. -/
theorem checkBodies_eq_ok {m : Module} {fs : List Function} :
    m.checkBodies fs = .ok () ↔ ∀ f ∈ fs, Expr.checkAll m f [] f.body = .ok () := by
  induction fs with
  | nil => exact ⟨fun _ => List.forall_mem_nil _, fun _ => rfl⟩
  | cons f fs ih =>
    rw [checkBodies, List.forall_mem_cons]
    cases hf : Expr.checkAll m f [] f.body with
    | error fault => exact ⟨nofun, fun h => by cases h.1⟩
    | ok u => exact ih.trans ⟨fun h => ⟨rfl, h⟩, And.right⟩

/-- A module passes exactly when each of its checks does. -/
theorem validate_eq_ok {m : Module} :
    m.validate = .ok () ↔
      m.checkNames = .ok () ∧ m.checkMemory = .ok ()
        ∧ checkExports m.callables [m.memory.exportName] m.exports = .ok ()
        ∧ m.checkBodies m.functions = .ok () := by
  unfold validate
  simp only [bind_eq_ok]
  constructor
  · rintro ⟨_, hnames, _, hmemory, _, hexports, hbodies⟩
    exact ⟨hnames, hmemory, hexports, hbodies⟩
  · rintro ⟨hnames, hmemory, hexports, hbodies⟩
    exact ⟨(), hnames, (), hmemory, (), hexports, hbodies⟩

end Module

end CallFlow
