/-
Lowering accepts exactly the well-typed programs.

The judgement is stated on the tree alone, from the operands outward: no table, no
slot and no order of checks. `Program.WellTyped` is all that a writer of programs
has to keep to, and the theorem says that nothing less and nothing more is asked.

# Shape of the argument

Every level has a lemma that goes from a judgement to the relation of lowering and
one that goes back. They meet in `mem_scope`: a name has a type in the scope of a
function exactly when it has a slot of that type.
-/
import CallFlow.Proofs.Lowering.Programs

namespace CallFlow

namespace Tree

-- ======================================================= the judgement

/-- What a well-formed operand is, by its tag and its parts. -/
inductive Operand.Reads (o : Operand) : OperandKind → Prop
  | reference {name : String} (tag : o.tag = "Identifier") (text : o.name = some name) :
      Reads o (.reference name)
  | i32 {n : Int64} (tag : o.tag = "i32") (value : o.value = some (.int n)) :
      Reads o (.integer .i32 n)
  | i64 {n : Int64} (tag : o.tag = "i64") (value : o.value = some (.int n)) :
      Reads o (.integer .i64 n)
  | float {x : Binary64} (tag : o.tag = "f64") (value : o.value = some (.float x)) :
      Reads o (.float x)
  | whole {n : Int64} (tag : o.tag = "f64") (value : o.value = some (.int n)) :
      Reads o (.float (.ofInt n.toInt))
  | void (tag : o.tag = "Void") : Reads o .void

/-- The type of an operand among names with types. An `i32` must be in
range. -/
inductive Operand.HasType (scope : List (String × ValueType)) (o : Operand) : ValueType → Prop
  | reference {name : String} {t : ValueType} (reads : o.Reads (.reference name))
      (bound : (name, t) ∈ scope) : HasType scope o t
  | i32 {n : Int64} (reads : o.Reads (.integer .i32 n))
      (range : -0x80000000 ≤ n.toInt ∧ n.toInt < 0x80000000) : HasType scope o .i32
  | i64 {n : Int64} (reads : o.Reads (.integer .i64 n)) : HasType scope o .i64
  | f64 {x : Binary64} (reads : o.Reads (.float x)) : HasType scope o .f64
  | void (reads : o.Reads .void) : HasType scope o .void

/-- The variables of a function with their types. -/
def Function.localScope (f : Function) : List (String × ValueType) :=
  f.body.vars.map fun v => (v.id.name, v.type)

/-- A call is well typed: it assigns to a variable that is no parameter,
and its callee takes the arguments that are not `Void` and gives the
type of the variable. -/
inductive Call.WellTyped (callables : List Callable) (f : Function) (c : Call) : Prop
  | mk {signature : Signature} {ts : List ValueType} (tagged : Tagged c)
      (callee : (c.callee.name, signature) ∈ callables)
      (args : List.Forall₂ (Operand.HasType f.scope) c.args ts)
      (types : ts.filter ValueType.isStorable = signature.params)
      (target : (c.target.name, signature.result) ∈ f.localScope)

/-- A function is well typed. -/
structure Function.WellTyped (callables : List Callable) (f : Function) : Prop where
  body : Tagged f.body
  params : ∀ p ∈ f.params, Tagged p ∧ p.type ≠ .void
  vars : ∀ v ∈ f.body.vars, Tagged v ∧ v.type ≠ .void
  names : f.declaredNames.Nodup
  inits : ∀ v ∈ f.body.vars, ∀ o, v.init = some o → o.HasType f.scope v.type
  loop : ∀ l, f.body.loop = some l →
    Tagged l ∧ f.body.calls = [] ∧ (l.condition.name, .i32) ∈ f.scope
  sentinel : f.body.loop = none → ∀ v ∈ f.body.vars, v.id.name = sentinelName → v.type = .i32
  calls : ∀ c ∈ f.body.allCalls, c.WellTyped callables f
  /-- There is a last call, and its target has the type of the result. -/
  output : ∃ c, f.body.allCalls.getLast? = some c ∧ (c.target.name, f.result) ∈ f.scope

/-- A program is well typed. -/
structure Program.WellTyped (p : Program) : Prop where
  tagged : Tagged p
  imports : ∀ i ∈ p.imports, Tagged i
  names : (p.callables.map Prod.fst).Nodup
  functions : ∀ f ∈ p.functions, Tagged f ∧ f.WellTyped p.callables
  exports : ∀ e ∈ p.exports, Tagged e ∧ e.id.name ∈ p.callables.map Prod.fst

-- ============================================================ operands

/-- The kind of an operand is given by its tag, and by the part that
this tag asks for. -/
theorem Operand.kind_eq_ok {o : Operand} {k : OperandKind} : o.kind = .ok k ↔ o.Reads k := by
  constructor
  · intro h
    unfold kind integerOf malformed at h
    split at h
    next htag =>
      split at h
      next name hname => cases h; exact .reference htag hname
      next => cases h
    next htag =>
      split at h
      next n hn => cases h; exact .i32 htag hn
      next => cases h
    next htag =>
      split at h
      next n hn => cases h; exact .i64 htag hn
      next => cases h
    next htag =>
      split at h
      next x hx => cases h; exact .float htag hx
      next n hn => cases h; exact .whole htag hn
      next => cases h
    next htag => cases h; exact .void htag
    next => cases h
  · intro h
    cases h with
    | reference tag text => simp only [kind, tag, text]
    | i32 tag value => simp only [kind, tag, integerOf, value]
    | i64 tag value => simp only [kind, tag, integerOf, value]
    | float tag value => simp only [kind, tag, value]
    | whole tag value => simp only [kind, tag, value]
    | void tag => simp only [kind, tag]

/-- The type of what an operand becomes; one that becomes nothing has
none. -/
def loweredType (v : Option Value) : ValueType :=
  (v.map Value.type).getD .void

/-- An operand has a type exactly when it becomes a value of that type.
The types of the operands come from the scope on one side and from the
table on the other, and these agree. -/
theorem Operand.hasType_iff {f : Function} (hf : f.Declares) {o : Operand} {t : ValueType} :
    o.HasType f.scope t ↔ ∃ v, Lowered f.layout o v ∧ loweredType v = t := by
  constructor
  · intro h
    cases h with
    | reference reads bound =>
      obtain ⟨slot, hslot, rfl⟩ := (Function.mem_scope hf).mp bound
      exact ⟨_, .reference (kind_eq_ok.mpr reads) hslot, rfl⟩
    | @i32 n reads range =>
      have hfits : narrow? n = some (Int32.ofInt n.toInt) := if_pos range
      exact ⟨_, .i32 (kind_eq_ok.mpr reads) hfits, rfl⟩
    | i64 reads => exact ⟨_, .i64 (kind_eq_ok.mpr reads) nofun, rfl⟩
    | f64 reads => exact ⟨_, .f64 (kind_eq_ok.mpr reads), rfl⟩
    | void reads => exact ⟨_, .void (kind_eq_ok.mpr reads), rfl⟩
  · intro h
    obtain ⟨v, hv, rfl⟩ := h
    cases hv with
    | reference kind bound =>
      exact .reference (kind_eq_ok.mp kind) ((Function.mem_scope hf).mpr ⟨_, bound, rfl⟩)
    | @i32 n v kind fits =>
      unfold narrow? at fits
      rw [Option.ite_none_right_eq_some] at fits
      exact .i32 (kind_eq_ok.mp kind) fits.1
    | i64 kind wide =>
      cases kind_eq_ok.mp kind with
      | i32 tag value => exact absurd rfl wide
      | i64 tag value => exact .i64 (.i64 tag value)
    | f64 kind => exact .f64 (kind_eq_ok.mp kind)
    | void kind => exact .void (kind_eq_ok.mp kind)

-- =============================================================== calls

section Calls

variable {f : Function} (hf : f.Declares)
include hf

/-- The variables are the slots that are no parameters. A name can be
assigned to exactly if it is one of them. -/
theorem Function.mem_localScope {name : String} {t : ValueType} :
    (name, t) ∈ f.localScope ↔
      ∃ slot, f.layout.lookup? name = some slot ∧ slot.type = t ∧ slot.origin ≠ .parameter := by
  unfold localScope
  rw [← f.variableDeclarations_perm.mem_iff, List.mem_map]
  constructor
  · intro h
    obtain ⟨d, hd, hpair⟩ := h
    cases hpair
    obtain ⟨j, hj⟩ := List.mem_iff_getElem?.mp hd
    refine ⟨d.slot (f.params.length + j), (lookup?_layout hf).mpr ⟨d, ?_, rfl, rfl⟩, rfl,
      origin_variableDeclarations hd⟩
    show f.declarations[f.params.length + j]? = some d
    unfold declarations
    rw [getElem?_map_append, hj]
  · intro h
    obtain ⟨slot, hslot, rfl, horigin⟩ := h
    obtain ⟨d, hd, rfl, hs⟩ := (lookup?_layout hf).mp hslot
    rw [hs] at horigin
    rcases List.mem_append.mp (List.mem_of_getElem? hd) with hparam | hvar
    · obtain ⟨p, -, rfl⟩ := List.mem_map.mp hparam
      exact absurd rfl horigin
    · refine ⟨d, hvar, ?_⟩
      rw [hs]
      rfl

/-- What an operand becomes can be passed. -/
theorem Operand.storable_of_lowered {o : Operand} {v : Value}
    (h : Lowered f.layout o (some v)) : v.type ≠ .void := by
  cases h with
  | reference kind bound => exact hf.type_ne_void bound
  | i32 kind fits => nofun
  | i64 kind wide => nofun
  | f64 kind => nofun

/-- The types of arguments that count are those of the values that are
passed. -/
theorem filter_loweredType {os : List Operand} {vs : List (Option Value)}
    (h : List.Forall₂ (Lowered f.layout) os vs) :
    (vs.map loweredType).filter ValueType.isStorable = (argumentValues vs).map Value.type := by
  induction h with
  | nil => rfl
  | @cons o v os vs ho _ ih =>
    cases v with
    | none => exact ih
    | some v =>
      have hstorable : (loweredType (some v)).isStorable = true :=
        ValueType.isStorable_eq_true.mpr (Operand.storable_of_lowered hf ho)
      rw [List.map_cons, List.filter_cons_of_pos hstorable, ih]
      rfl

/-- Arguments have types exactly when they become values of those types. -/
theorem forall₂_hasType {os : List Operand} {ts : List ValueType} :
    List.Forall₂ (Operand.HasType f.scope) os ts ↔
      ∃ vs, List.Forall₂ (Lowered f.layout) os vs ∧ vs.map loweredType = ts :=
  forall₂_iff_exists_map fun o t => @Operand.hasType_iff f hf o t

/-- A call is well typed exactly when it becomes an operation. -/
theorem Call.wellTyped_iff {callables : List Callable} (hnames : (callables.map Prod.fst).Nodup)
    {c : Call} :
    c.WellTyped callables f ↔ ∃ op, LoweredCall { entries := callables } f.layout c op := by
  constructor
  · intro h
    obtain @⟨signature, ts, tagged, callee, args, types, target⟩ := h
    obtain ⟨vs, hvs, rfl⟩ := (forall₂_hasType hf).mp args
    obtain ⟨slot, hslot, htype, horigin⟩ := (Function.mem_localScope hf).mp target
    rw [filter_loweredType hf hvs] at types
    exact ⟨_, .mk tagged hvs hslot horigin ((lookup_eq_some_of_nodup hnames).mpr callee) types
      htype.symm⟩
  · intro h
    obtain ⟨_, @⟨vs, slot, signature, tagged, args, bound, writable, callee, types, result⟩⟩ := h
    refine .mk tagged ((lookup_eq_some_of_nodup hnames).mp callee)
      ((forall₂_hasType hf).mpr ⟨vs, args, rfl⟩) ?_ ?_
    · rw [filter_loweredType hf args, types]
    · exact (Function.mem_localScope hf).mpr ⟨slot, bound, result.symm, writable⟩

/-- A variable has a slot of its type. -/
theorem Function.lookup?_variable {v : Variable} (hv : v ∈ f.body.vars) :
    ∃ slot, f.layout.lookup? v.id.name = some slot ∧ slot.type = v.type :=
  (mem_scope hf).mp (List.mem_append_right _ (List.mem_map_of_mem hv))

/-- Initial values have the types of their variables exactly when they
become operations. -/
theorem exists_loweredInits {vs : List Variable} (hvs : ∀ v ∈ vs, v ∈ f.body.vars) :
    (∃ ops, LoweredInits f.layout vs ops) ↔
      ∀ v ∈ vs, ∀ o, v.init = some o → o.HasType f.scope v.type := by
  induction vs with
  | nil => exact ⟨fun _ => List.forall_mem_nil _, fun _ => ⟨[], .nil⟩⟩
  | cons v vs ih =>
    obtain ⟨hv, hvs⟩ := List.forall_mem_cons.mp hvs
    obtain ⟨slot, hslot, htype⟩ := Function.lookup?_variable hf hv
    rw [List.forall_mem_cons, ← ih hvs]
    constructor
    · intro h
      obtain ⟨ops, h⟩ := h
      cases h with
      | skip init rest =>
        refine ⟨fun o ho => ?_, _, rest⟩
        rw [init] at ho
        cases ho
      | @init _ _ _ o slot' value init bound operand type rest =>
        refine ⟨fun o' ho' => ?_, _, rest⟩
        rw [init] at ho'
        cases ho'
        rw [bound] at hslot
        cases hslot
        exact (Operand.hasType_iff hf).mpr ⟨some value, operand, type.trans htype⟩
    · intro h
      obtain ⟨hinit, ops, hops⟩ := h
      cases ho : v.init with
      | none => exact ⟨ops, .skip ho hops⟩
      | some o =>
        obtain ⟨value, hvalue, hvaluetype⟩ := (Operand.hasType_iff hf).mp (hinit o ho)
        cases value with
        | none => exact absurd hvaluetype.symm (hf.vars v hv).2
        | some value => exact ⟨_, .init ho hslot hvalue (hvaluetype.trans htype.symm) hops⟩

/-- The guard of a body is an `i32` exactly when the condition of its
loop is or, without a loop, a variable with the name of the sentinel. -/
theorem Function.guard_iff :
    (∀ name, f.body.guard? = some name → ∃ s, f.layout.lookup? name = some s ∧ s.type = .i32) ↔
      (∀ l, f.body.loop = some l → (l.condition.name, .i32) ∈ f.scope)
        ∧ (f.body.loop = none →
          ∀ v ∈ f.body.vars, v.id.name = sentinelName → v.type = .i32) := by
  unfold Body.guard?
  cases f.body.loop with
  | some l =>
    simp only [Option.some.injEq, forall_eq', mem_scope hf, reduceCtorEq, false_implies, and_true]
  | none =>
    simp only [reduceCtorEq, false_implies, implies_true, true_and, forall_const]
    constructor
    · intro h v hv hname
      have hany : (f.body.vars.any fun v => v.id.name == sentinelName) = true :=
        List.any_eq_true.mpr ⟨v, hv, beq_iff_eq.mpr hname⟩
      obtain ⟨s, hs, ht⟩ := h sentinelName (if_pos hany)
      obtain ⟨slot, hslot, htype⟩ := lookup?_variable hf hv
      rw [hname, hs] at hslot
      cases hslot
      exact htype.symm.trans ht
    · intro h name hname
      rw [Option.ite_none_right_eq_some] at hname
      obtain ⟨hany, hsame⟩ := hname
      cases hsame
      obtain ⟨v, hv, hvname⟩ := List.any_eq_true.mp hany
      obtain ⟨slot, hslot, htype⟩ := lookup?_variable hf hv
      rw [beq_iff_eq.mp hvname] at hslot
      exact ⟨slot, hslot, htype.trans (h v hv (beq_iff_eq.mp hvname))⟩

end Calls

-- ============================================================ programs

/-- A function is well typed exactly when lowering accepts it. The parts
correspond one by one: declarations, initial values, calls, guard and
result. -/
theorem Function.wellTyped_iff {callables : List Callable}
    (hnames : (callables.map Prod.fst).Nodup) {f : Function} :
    f.WellTyped callables ↔
      ∃ g, (lowerFunction { entries := callables } f).outcome = .ok g := by
  simp only [outcome_lowerFunction_eq_ok]
  constructor
  · intro h
    have hf : f.Declares := ⟨h.params, h.vars, h.names⟩
    obtain ⟨inits, hinits⟩ := (exists_loweredInits hf fun _ hv => hv).mpr h.inits
    obtain ⟨calls, hcalls⟩ := exists_forall₂.mpr
      fun c hc => (Call.wellTyped_iff hf hnames).mp (h.calls c hc)
    obtain ⟨last, hlast, hresult⟩ := h.output
    obtain ⟨slot, hslot, htype⟩ := (mem_scope hf).mp hresult
    have hguard := (guard_iff hf).mpr ⟨fun l hl => (h.loop l hl).2.2, h.sentinel⟩
    refine ⟨_, inits, calls, f.body.guard?.bind f.layout.lookup?, slot, ?_, rfl⟩
    exact
      { tagged := h.body
        declares := hf
        inits := hinits
        guarded := ⟨fun l hl => ⟨(h.loop l hl).1, (h.loop l hl).2.1⟩, rfl, hguard⟩
        calls := hcalls
        output := by unfold Body.output?; rw [hlast]; exact hslot
        result := htype }
  · intro h
    obtain ⟨_, inits, calls, guard, slot, h, -⟩ := h
    have hf := h.declares
    obtain ⟨hcondition, hsentinel⟩ := (guard_iff hf).mp h.guarded.type
    obtain ⟨name, hname, hslot⟩ := Option.bind_eq_some_iff.mp h.output
    obtain ⟨last, hlast, rfl⟩ := Option.map_eq_some_iff.mp hname
    exact
      { body := h.tagged
        params := hf.params
        vars := hf.vars
        names := hf.nodup
        inits := (exists_loweredInits hf fun _ hv => hv).mp ⟨inits, h.inits⟩
        loop := fun l hl =>
          ⟨(h.guarded.loop l hl).1, (h.guarded.loop l hl).2, hcondition l hl⟩
        sentinel := hsentinel
        calls := fun c hc =>
          (Call.wellTyped_iff hf hnames).mpr (exists_forall₂.mp ⟨calls, h.calls⟩ c hc)
        output := ⟨last, hlast, (mem_scope hf).mpr ⟨slot, hslot, h.result⟩⟩ }

end Tree

/-- Lowering accepts exactly the well-typed programs, in every session.
The table that functions are checked against is the one of the program,
whatever was registered before. -/
theorem lowerProgram_accepts_iff (s : Session) (p : Tree.Program) :
    (∃ m, (s.lowerProgram p).2.outcome = .ok m) ↔ p.WellTyped := by
  simp only [outcome_lowerProgram_eq_ok]
  constructor
  · intro h
    obtain ⟨_, gs, h, -⟩ := h
    have hnames := h.registered.nodup
    exact
      { tagged := h.tagged
        imports := h.registered.imports
        names := hnames
        functions := fun f hf => ⟨(h.registered.functions f hf).1,
          (Tree.Function.wellTyped_iff hnames).mpr (exists_forall₂.mp ⟨gs, h.functions⟩ f hf)⟩
        exports := h.exports }
  · intro h
    obtain ⟨gs, hgs⟩ := exists_forall₂.mpr
      fun f hf => (Tree.Function.wellTyped_iff h.names).mp (h.functions f hf).2
    refine ⟨_, gs, ?_, rfl⟩
    exact
      { tagged := h.tagged
        registered :=
          { imports := h.imports
            functions := fun f hf =>
              ⟨(h.functions f hf).1, fun q hq => ((h.functions f hf).2.params q hq).2⟩
            nodup := h.names }
        functions := hgs
        exports := h.exports }

end CallFlow
