/-
What the statements of a function come to.

Each step of lowering is given a relation that says what it accepts and what it
gives, without its errors and events: `Lowered` for operands, `LoweredInits` for
initial values, `LoweredCall` for calls. A step succeeds with a result exactly
when the relation holds, so a proof about an accepted function recurses on the
relations and never on the code that reports errors.
-/
import CallFlow.Proofs.Lowering.Declarations
import CallFlow.Proofs.Semantics.Source

namespace CallFlow

open CallFlow.Tree (Tagged)

variable {functions : FunctionTable} {symbols : SymbolTable}

theorem SymbolTable.resolve_eq_ok {name : String} {span : Option Span} {slot : Slot} :
    symbols.resolve name span = .ok slot ↔ symbols.lookup? name = some slot := by
  unfold resolve
  cases symbols.lookup? name with
  | none => exact ⟨nofun, nofun⟩
  | some s => exact ⟨fun h => by cases h; rfl, fun h => by cases h; rfl⟩

-- ============================================================ operands

/-- The value of an operand, if it is well formed and its name is
declared. -/
inductive Lowered (symbols : SymbolTable) (o : Tree.Operand) : Option Value → Prop
  | reference {name : String} {slot : Slot} (kind : o.kind = .ok (.reference name))
      (bound : symbols.lookup? name = some slot) : Lowered symbols o (some (.slot slot))
  | i32 {n : Int64} {v : Int32} (kind : o.kind = .ok (.integer .i32 n))
      (fits : narrow? n = some v) : Lowered symbols o (some (.const (.i32 v)))
  | i64 {t : ValueType} {n : Int64} (kind : o.kind = .ok (.integer t n)) (wide : t ≠ .i32) :
      Lowered symbols o (some (.const (.i64 n)))
  | f64 {x : Binary64} (kind : o.kind = .ok (.float x)) :
      Lowered symbols o (some (.const (.f64 x)))
  | void (kind : o.kind = .ok .void) : Lowered symbols o none

/-- A 64-bit integer that keeps its value is narrowed, and no other. -/
theorem narrow?_eq_some {n : Int64} {v : Int32} :
    narrow? n = some v ↔ (Int32.ofInt n.toInt).toInt = n.toInt ∧ Int32.ofInt n.toInt = v := by
  have hrange : (-0x80000000 ≤ n.toInt ∧ n.toInt < 0x80000000) ↔
      (Int32.ofInt n.toInt).toInt = n.toInt := by
    rw [Int32.toInt_ofInt, Int.bmod_def]
    unfold Int32.size
    split <;> omega
  unfold narrow?
  rw [Option.ite_none_right_eq_some, hrange, Option.some_inj]

/-- An operand is lowered to the slot of its variable, to a constant
that fits its type, or to nothing where it is `Void`. -/
theorem lowerOperand_eq_ok {o : Tree.Operand} {v : Option Value} :
    lowerOperand o symbols = .ok v ↔ Lowered symbols o v := by
  unfold lowerOperand
  rw [bind_eq_ok]
  constructor
  · rintro ⟨kind, hkind, h⟩
    cases kind with
    | reference name =>
      obtain ⟨slot, hslot, h⟩ := bind_eq_ok.mp h
      cases h
      exact .reference hkind (SymbolTable.resolve_eq_ok.mp hslot)
    | integer t n =>
      cases t with
      | i32 =>
        simp only at h
        cases hn : narrow? n with
        | none => rw [hn] at h; cases h
        | some v' => rw [hn] at h; cases h; exact .i32 hkind hn
      | i64 => cases h; exact .i64 hkind nofun
      | f64 => cases h; exact .i64 hkind nofun
      | void => cases h; exact .i64 hkind nofun
    | float x => cases h; exact .f64 hkind
    | void => cases h; exact .void hkind
  · intro h
    cases h with
    | reference kind bound =>
      exact ⟨_, kind, bind_eq_ok.mpr ⟨_, SymbolTable.resolve_eq_ok.mpr bound, rfl⟩⟩
    | i32 kind fits =>
      refine ⟨_, kind, ?_⟩
      simp only [fits]
      rfl
    | @i64 t n kind wide =>
      refine ⟨_, kind, ?_⟩
      cases t with
      | i32 => exact absurd rfl wide
      | i64 => rfl
      | f64 => rfl
      | void => rfl
    | f64 kind => exact ⟨_, kind, rfl⟩
    | void kind => exact ⟨_, kind, rfl⟩

theorem lowerInitializer_eq_ok {name : String} {slot : Slot} {o : Tree.Operand} {value : Value} :
    lowerInitializer name slot o symbols = .ok value ↔
      Lowered symbols o (some value) ∧ value.type = slot.type := by
  unfold lowerInitializer
  rw [bind_eq_ok]
  constructor
  · rintro ⟨v, hv, h⟩
    rw [lowerOperand_eq_ok] at hv
    cases v with
    | none => cases h
    | some v =>
      simp only at h
      split at h
      next ht => cases h; exact ⟨hv, ht⟩
      next => cases h
  · rintro ⟨hv, ht⟩
    refine ⟨some value, lowerOperand_eq_ok.mpr hv, ?_⟩
    simp only [if_pos ht]
    rfl

-- ====================================================== initial values

/-- The operations that give variables their initial values. -/
inductive LoweredInits (symbols : SymbolTable) : List Tree.Variable → List Operation → Prop
  | nil : LoweredInits symbols [] []
  | skip {v : Tree.Variable} {vs : List Tree.Variable} {ops : List Operation}
      (init : v.init = none) (rest : LoweredInits symbols vs ops) :
      LoweredInits symbols (v :: vs) ops
  | init {v : Tree.Variable} {vs : List Tree.Variable} {ops : List Operation} {o : Tree.Operand}
      {slot : Slot} {value : Value} (init : v.init = some o)
      (bound : symbols.lookup? v.id.name = some slot) (operand : Lowered symbols o (some value))
      (type : value.type = slot.type) (rest : LoweredInits symbols vs ops) :
      LoweredInits symbols (v :: vs) (.init slot value :: ops)

/-- Initial values are lowered in order; variables without one are
passed over. The induction is over the variables; an initial value is
resolved against the whole table, not only the slots before it. -/
theorem outcome_lowerInits_eq_ok {vs : List Tree.Variable} {ops : List Operation} :
    (lowerInits symbols vs).outcome = .ok ops ↔ LoweredInits symbols vs ops := by
  induction vs generalizing ops with
  | nil =>
    show Except.ok [] = Except.ok ops ↔ _
    constructor
    · intro h
      cases h
      exact .nil
    · intro h
      cases h
      rfl
  | cons v vs ih =>
    unfold lowerInits
    cases hinit : v.init with
    | none =>
      show (lowerInits symbols vs).outcome = .ok ops ↔ _
      rw [ih]
      constructor
      · exact .skip hinit
      · intro h
        cases h with
        | skip _ rest => exact rest
        | init hsome => rw [hinit] at hsome; cases hsome
    | some o =>
      simp only [Traced.outcome_bind, Traced.outcome_ofExcept, Traced.outcome_report,
        Traced.outcome_pure, bind_eq_ok, SymbolTable.resolve_eq_ok, lowerInitializer_eq_ok, ih,
        Except.ok.injEq]
      constructor
      · rintro ⟨slot, hslot, value, ⟨hvalue, htype⟩, -, -, rest, hrest, rfl⟩
        exact .init hinit hslot hvalue htype hrest
      · intro h
        cases h with
        | skip hnone => rw [hinit] at hnone; cases hnone
        | init hsome bound operand type rest =>
          rw [hinit] at hsome
          cases hsome
          exact ⟨_, bound, _, ⟨operand, type⟩, (), trivial, _, rest, rfl⟩

/-- Initial values are given by operations of one kind. -/
theorem LoweredInits.isInit {vs : List Tree.Variable} {ops : List Operation}
    (h : LoweredInits symbols vs ops) : ∀ op ∈ ops, op.isInit = true := by
  induction h with
  | nil => nofun
  | skip _ _ ih => exact ih
  | init _ _ _ _ _ ih =>
    intro op hop
    rcases List.mem_cons.mp hop with rfl | hop
    · rfl
    · exact ih op hop

-- =============================================================== calls

/-- The values of arguments, without those of `Void`. -/
def argumentValues (vs : List (Option Value)) : List Value :=
  vs.filterMap id

/-- The arguments of a call are its lowered operands, without those that
are no values. An argument of type `Void` is evaluated to nothing and
takes no place among the values. -/
theorem lowerArgs_eq_ok {os : List Tree.Operand} {values : List Value} :
    (∃ args, lowerArgs symbols os = .ok args ∧ args.map Argument.value = values) ↔
      ∃ vs, List.Forall₂ (Lowered symbols) os vs ∧ values = argumentValues vs := by
  induction os generalizing values with
  | nil =>
    constructor
    · rintro ⟨args, h, rfl⟩
      cases h
      exact ⟨[], .nil, rfl⟩
    · rintro ⟨vs, h, rfl⟩
      cases h
      exact ⟨[], rfl, rfl⟩
  | cons o os ih =>
    unfold lowerArgs
    simp only [bind_eq_ok, lowerOperand_eq_ok]
    constructor
    · rintro ⟨args, ⟨v, hv, rest, hrest, h⟩, rfl⟩
      obtain ⟨vs, hvs, hvalues⟩ := ih.mp ⟨rest, hrest, rfl⟩
      refine ⟨v :: vs, .cons hv hvs, ?_⟩
      cases v with
      | none => cases h; exact hvalues
      | some v => cases h; exact congrArg (v :: ·) hvalues
    · rintro ⟨vs, h, rfl⟩
      cases h with
      | @cons _ v _ vs hv hvs =>
        obtain ⟨rest, hrest, hvalues⟩ := ih.mpr ⟨vs, hvs, rfl⟩
        cases v with
        | none => exact ⟨rest, ⟨none, hv, rest, hrest, rfl⟩, hvalues⟩
        | some v =>
          exact ⟨⟨v, o.span⟩ :: rest, ⟨some v, hv, rest, hrest, rfl⟩, congrArg (v :: ·) hvalues⟩

/-- Arguments as many as there are types pass the check exactly when
they have these types. -/
theorem checkArgs_eq_ok {callee : String} {position : Nat} {args : List Argument}
    {types : List ValueType} {u : Unit} (hlen : types.length = args.length) :
    checkArgs callee position args types = .ok u ↔
      (args.map Argument.value).map Value.type = types := by
  induction args generalizing position types with
  | nil =>
    cases types with
    | nil => exact ⟨fun _ => rfl, fun _ => rfl⟩
    | cons t ts => nomatch hlen
  | cons a as ih =>
    cases types with
    | nil => nomatch hlen
    | cons t ts =>
      unfold checkArgs
      rw [List.map_cons, List.map_cons, List.cons.injEq]
      by_cases ht : a.value.type = t
      · rw [if_pos ht, ih (Nat.succ.inj hlen)]
        exact ⟨fun h => ⟨ht, h⟩, And.right⟩
      · rw [if_neg ht]
        exact ⟨nofun, fun h => absurd h.1 ht⟩

/-- The operation of a call that its callee accepts. -/
inductive LoweredCall (functions : FunctionTable) (symbols : SymbolTable) (c : Tree.Call) :
    Operation → Prop
  | mk {vs : List (Option Value)} {target : Slot} {signature : Signature} (tagged : Tagged c)
      (args : List.Forall₂ (Lowered symbols) c.args vs)
      (bound : symbols.lookup? c.target.name = some target)
      (writable : target.origin ≠ .parameter)
      (callee : functions.lookup? c.callee.name = some signature)
      (types : (argumentValues vs).map Value.type = signature.params)
      (result : signature.result = target.type) :
      LoweredCall functions symbols c
        (.call target c.callee.name (argumentValues vs) target.type)

theorem resolveTarget_eq_ok {c : Tree.Call} {target : Slot} :
    resolveTarget c symbols = .ok target ↔
      symbols.lookup? c.target.name = some target ∧ target.origin ≠ .parameter := by
  unfold resolveTarget
  simp only [bind_eq_ok, SymbolTable.resolve_eq_ok]
  constructor
  · rintro ⟨slot, hslot, h⟩
    split at h
    next => cases h
    next ho => cases h; exact ⟨hslot, ho⟩
  · rintro ⟨hslot, ho⟩
    exact ⟨target, hslot, by rw [if_neg ho]; rfl⟩

/-- A call is lowered if it is tagged, its callee is known and takes
just these arguments, and its target is no parameter and has the type of
the result. -/
theorem callOperation_eq_ok {c : Tree.Call} {op : Operation} :
    callOperation functions symbols c = .ok op ↔ LoweredCall functions symbols c op := by
  unfold callOperation
  simp only [bind_eq_ok, expectKind_eq_ok, resolveTarget_eq_ok]
  constructor
  · rintro ⟨-, htag, args, hargs, target, ⟨hbound, hwritable⟩, h⟩
    obtain ⟨vs, hvs, hvalues⟩ := lowerArgs_eq_ok.mp ⟨args, hargs, rfl⟩
    cases hcallee : functions.lookup? c.callee.name with
    | none => rw [hcallee] at h; cases h
    | some signature =>
      simp only [hcallee] at h
      by_cases hlen : signature.params.length = args.length
      · rw [if_neg (not_not_intro hlen)] at h
        obtain ⟨_, hcheck, h⟩ := bind_eq_ok.mp h
        by_cases hresult : signature.result = target.type
        · rw [if_neg (not_not_intro hresult)] at h
          cases h
          rw [checkArgs_eq_ok hlen, hvalues] at hcheck
          rw [hvalues]
          exact .mk htag hvs hbound hwritable hcallee hcheck hresult
        · rw [if_pos hresult] at h
          cases h
      · rw [if_pos hlen] at h
        cases h
  · rintro @⟨vs, target, signature, htag, hvs, hbound, hwritable, hcallee, htypes, hresult⟩
    obtain ⟨args, hargs, hvalues⟩ := lowerArgs_eq_ok.mpr ⟨_, hvs, rfl⟩
    refine ⟨(), htag, args, hargs, _, ⟨hbound, hwritable⟩, ?_⟩
    rw [← hvalues] at htypes
    have hlen : signature.params.length = args.length := by
      rw [← htypes, List.length_map, List.length_map]
    simp only [hcallee]
    rw [if_neg (not_not_intro hlen)]
    refine bind_eq_ok.mpr ⟨(), (checkArgs_eq_ok hlen).mpr htypes, ?_⟩
    rw [if_neg (not_not_intro hresult), hvalues]
    rfl

theorem outcome_lowerCalls_eq_ok {cs : List Tree.Call} {ops : List Operation} :
    (lowerCalls functions symbols cs).outcome = .ok ops ↔
      List.Forall₂ (LoweredCall functions symbols) cs ops := by
  induction cs generalizing ops with
  | nil =>
    show Except.ok [] = Except.ok ops ↔ _
    rw [List.forall₂_nil_left_iff]
    exact ⟨fun h => by cases h; rfl, fun h => by rw [h]⟩
  | cons c cs ih =>
    unfold lowerCalls
    simp only [Traced.outcome_bind, Traced.outcome_ofExcept, Traced.outcome_report,
      Traced.outcome_pure, bind_eq_ok, callOperation_eq_ok, ih, Except.ok.injEq]
    constructor
    · rintro ⟨op, hop, -, -, rest, hrest, rfl⟩
      exact .cons hop hrest
    · intro h
      cases h with
      | cons hop hrest => exact ⟨_, hop, (), trivial, _, hrest, rfl⟩

/-- Calls are performed by operations of one kind. -/
theorem isCall_of_forall₂ {cs : List Tree.Call} {ops : List Operation}
    (h : List.Forall₂ (LoweredCall functions symbols) cs ops) : ∀ op ∈ ops, op.isCall = true := by
  induction h with
  | nil => nofun
  | cons hop _ ih =>
    intro op hmem
    rcases List.mem_cons.mp hmem with rfl | hmem
    · cases hop
      rfl
    · exact ih op hmem

/-- The last call assigns to the slot of its target. -/
theorem findSome?_callTarget? {cs : List Tree.Call} {ops : List Operation}
    (h : List.Forall₂ (LoweredCall functions symbols) cs ops) :
    ops.reverse.findSome? Operation.callTarget?
      = cs.getLast?.bind fun c => symbols.lookup? c.target.name := by
  have hrev := List.forall₂_reverse_iff.mpr h
  rw [← List.head?_reverse]
  generalize ops.reverse = ops' at hrev ⊢
  generalize cs.reverse = cs' at hrev ⊢
  cases hrev with
  | nil => rfl
  | cons hop _ =>
    cases hop with
    | mk _ _ bound =>
      rw [List.head?_cons, Option.bind_some, bound]
      rfl

/-- The result is the target of the last call, and must be of the type
that the function gives. -/
theorem returnSlot_eq_ok {f : Tree.Function} {cs : List Tree.Call} {ops : List Operation}
    {slot : Slot} (h : List.Forall₂ (LoweredCall functions symbols) cs ops) :
    returnSlot f ops = .ok slot ↔
      (cs.getLast?.bind fun c => symbols.lookup? c.target.name) = some slot
        ∧ slot.type = f.result := by
  unfold returnSlot
  rw [findSome?_callTarget? h]
  cases cs.getLast?.bind fun c => symbols.lookup? c.target.name with
  | none => exact ⟨nofun, nofun⟩
  | some s =>
    simp only [Option.some.injEq]
    by_cases ht : s.type = f.result
    · rw [if_pos ht]
      constructor
      · intro h
        cases h
        exact ⟨rfl, ht⟩
      · rintro ⟨rfl, -⟩
        rfl
    · rw [if_neg ht]
      refine ⟨nofun, fun ⟨hs, ht'⟩ => ?_⟩
      subst hs
      exact absurd ht' ht

-- =============================================================== guard

/-- A body that loops under its sentinel holds it back. -/
theorem heldBack_of_hasSentinel {body : Tree.Body} (h : hasSentinel body = true) :
    ∃ v, heldBack (hasSentinel body) body.vars = some v ∧ v.id.name = Tree.sentinelName := by
  obtain ⟨before, v, after, hvars, hv, hbefore⟩ := exists_first_sentinel h
  refine ⟨v, ?_, Tree.Variable.isSentinel_iff.mp hv⟩
  rw [h, hvars, heldBack_split hbefore hv]

/-- The slots of a list of declarations come from its members. -/
theorem find?_slots_eq_none {ds : List Declaration} {n : Nat}
    (h : ∀ d ∈ ds, d.origin ≠ .sentinel) :
    (((ds.zipIdx n).map fun p => p.1.slot p.2).find? fun s => s.origin == .sentinel) = none := by
  rw [List.find?_eq_none]
  intro s hs
  obtain ⟨p, hp, rfl⟩ := List.mem_map.mp hs
  have horigin := h p.1 (List.fst_mem_of_mem_zipIdx hp)
  simpa [Declaration.slot] using horigin

/-- Only the variable that is held back is the sentinel. -/
theorem origin_in_place {f : Tree.Function} {d : Declaration}
    (h : d ∈ f.params.map Tree.Param.declaration
      ++ declarationsInPlace (hasSentinel f.body) f.body.vars) : d.origin ≠ .sentinel := by
  rcases List.mem_append.mp h with h | h
  · obtain ⟨p, -, rfl⟩ := List.mem_map.mp h
    nofun
  · obtain ⟨v, -, rfl⟩ := List.mem_map.mp h
    nofun

/-- The slot of the sentinel, if there is one, is that of its name. The
layout has at most one slot of that origin, because at most one variable
was held back. -/
theorem find?_sentinel_layout {f : Tree.Function} (h : f.Declares) :
    (f.layout.slots.find? fun s => s.origin == .sentinel)
      = if hasSentinel f.body then f.layout.lookup? Tree.sentinelName else none := by
  have hslots : f.layout.slots = f.declarations.zipIdx.map fun p => p.1.slot p.2 :=
    h.inStep_layout.slots_eq
  have hdecl : f.declarations = (f.params.map Tree.Param.declaration
      ++ declarationsInPlace (hasSentinel f.body) f.body.vars)
      ++ (heldBack (hasSentinel f.body) f.body.vars).toList.map
        (Tree.Variable.declaration .sentinel) := by
    unfold Tree.Function.declarations Tree.Function.variableDeclarations
    rw [List.append_assoc]
  by_cases hs : hasSentinel f.body = true
  · rw [if_pos hs]
    obtain ⟨v, hv, hname⟩ := heldBack_of_hasSentinel hs
    rw [hv, Option.toList_some, List.map_singleton] at hdecl
    have hlookup : f.layout.lookup? Tree.sentinelName
        = some ((v.declaration .sentinel).slot (f.params.map Tree.Param.declaration
          ++ declarationsInPlace (hasSentinel f.body) f.body.vars).length) := by
      rw [Tree.Function.lookup?_layout h]
      refine ⟨v.declaration .sentinel, ?_, hname, rfl⟩
      rw [hdecl]
      exact List.getElem?_concat_length
    rw [hlookup, hslots, hdecl, List.zipIdx_append, List.map_append, List.find?_append,
      find?_slots_eq_none fun d => origin_in_place, Option.none_or, Nat.zero_add]
    rfl
  · rw [if_neg hs]
    have hnone : heldBack (hasSentinel f.body) f.body.vars = none := by
      unfold heldBack
      rw [if_neg hs]
    rw [hnone, Option.toList_none, List.map_nil, List.append_nil] at hdecl
    rw [hslots, hdecl]
    exact find?_slots_eq_none fun d => origin_in_place

/-- The guard of a function is a slot of type `i32`, and a loop node has
the calls for itself. -/
structure Guarded (f : Tree.Function) (guard : Option Slot) : Prop where
  loop : ∀ l, f.body.loop = some l → Tagged l ∧ f.body.calls = []
  slot : guard = f.body.guard?.bind f.layout.lookup?
  type : ∀ name, f.body.guard? = some name →
    ∃ s, f.layout.lookup? name = some s ∧ s.type = .i32

/-- The guard of a loop is an integer of type `i32`, if there is one. -/
theorem checkGuard_eq_ok {g : Option Guard} {u : Unit} :
    checkGuard g = .ok u ↔ ∀ g', g = some g' → g'.slot.type = .i32 := by
  cases g with
  | none => exact ⟨nofun, fun _ => rfl⟩
  | some g =>
    refine Iff.trans ite_eq_ok ⟨fun h g' hg => ?_, fun h => h g rfl⟩
    cases hg
    exact h

/-- A loop node is guarded by the slot of its condition. That a sentinel
may be declared as well makes no difference here. -/
theorem findGuard_of_loop {body : Tree.Body} {sentinel : Option Tree.Variable} {l : Tree.Loop}
    {g : Option Guard} (hloop : body.loop = some l) :
    findGuard body symbols sentinel = .ok g ↔
      (Tagged l ∧ body.calls = []) ∧ ∃ s, symbols.lookup? l.condition.name = some s
        ∧ g = some ⟨l.condition.name, s, l.condition.span⟩ := by
  unfold findGuard
  simp only [hloop, bind_eq_ok, expectKind_eq_ok]
  cases body.calls with
  | cons c cs =>
    constructor
    · intro h
      obtain ⟨_, -, h⟩ := h
      cases h
    · intro h
      cases h.1.2
  | nil =>
    simp only [bind_eq_ok, SymbolTable.resolve_eq_ok, pure_eq_ok]
    constructor
    · intro h
      obtain ⟨_, htag, s, hs, hg⟩ := h
      exact ⟨⟨htag, trivial⟩, s, hs, hg.symm⟩
    · intro h
      obtain ⟨⟨htag, -⟩, s, hs, hg⟩ := h
      exact ⟨(), htag, s, hs, hg.symm⟩

section NoLoop

variable {f : Tree.Function} (hloop : f.body.loop = none)

include hloop

/-- Without a loop it is the sentinel that guards the calls, and only
where one is declared. -/
theorem guard?_of_no_loop :
    f.body.guard? = if hasSentinel f.body then some Tree.sentinelName else none := by
  unfold Tree.Body.guard? hasSentinel
  rw [hloop]
  rfl

/-- Without a loop node the sentinel is the guard, if it is declared. -/
theorem findGuard_of_no_loop (h : f.Declares) (sentinel : Option Tree.Variable) :
    ∃ span, findGuard f.body f.layout sentinel
      = .ok ((f.body.guard?.bind f.layout.lookup?).map (Guard.mk Tree.sentinelName · span)) := by
  have hguard : (f.layout.slots.find? fun s => s.origin == .sentinel)
      = f.body.guard?.bind f.layout.lookup? := by
    rw [find?_sentinel_layout h, guard?_of_no_loop hloop]
    by_cases hs : hasSentinel f.body = true
    · rw [if_pos hs, if_pos hs, Option.bind_some]
    · rw [if_neg hs, if_neg hs, Option.bind_none]
  refine ⟨sentinel.bind fun v => v.id.span, ?_⟩
  unfold findGuard
  simp only [hloop, hguard]
  cases f.body.guard?.bind f.layout.lookup? with
  | none => rfl
  | some s => rfl

/-- A sentinel that is declared has a slot. -/
theorem exists_lookup?_of_guard (h : f.Declares) {name : String}
    (hname : f.body.guard? = some name) : ∃ s, f.layout.lookup? name = some s := by
  rw [guard?_of_no_loop hloop, Option.ite_none_right_eq_some, Option.some_inj] at hname
  obtain ⟨hs, rfl⟩ := hname
  have hmem := Tree.Function.sentinelName_mem_layout hs
  exact Option.isSome_iff_exists.mp (h.inStep_layout.lookup?_isSome.mpr hmem)

end NoLoop

/-- Finding and checking the guard comes to the slot that guards the
function, after the declarations went through. There are three cases: a
loop node, a sentinel without a loop node, and neither. -/
theorem guarded_iff {f : Tree.Function} (h : f.Declares) {sentinel : Option Tree.Variable}
    {guard : Option Slot} :
    (∃ g, findGuard f.body f.layout sentinel = .ok g ∧ checkGuard g = .ok ()
        ∧ g.map Guard.slot = guard) ↔ Guarded f guard := by
  simp only [checkGuard_eq_ok]
  cases hloop : f.body.loop with
  | some l =>
    have hname : f.body.guard? = some l.condition.name := by
      unfold Tree.Body.guard?
      rw [hloop]
    constructor
    · intro hg
      obtain ⟨g, hfind, hcheck, rfl⟩ := hg
      obtain ⟨hl, s, hs, rfl⟩ := (findGuard_of_loop hloop).mp hfind
      refine ⟨fun l' hl' => ?_, ?_, fun name hn => ?_⟩
      · rw [hloop] at hl'
        cases hl'
        exact hl
      · rw [hname, Option.bind_some, hs]
        rfl
      · rw [hname] at hn
        cases hn
        exact ⟨s, hs, hcheck _ rfl⟩
    · intro hg
      obtain ⟨hl, rfl, htype⟩ := hg
      obtain ⟨s, hs, ht⟩ := htype _ hname
      refine ⟨_, (findGuard_of_loop hloop).mpr ⟨hl l hloop, s, hs, rfl⟩, fun g' hg' => ?_, ?_⟩
      · cases hg'
        exact ht
      · rw [hname, Option.bind_some, hs]
        rfl
  | none =>
    obtain ⟨span, hfind⟩ := findGuard_of_no_loop hloop h sentinel
    have hslot : ((f.body.guard?.bind f.layout.lookup?).map
        (Guard.mk Tree.sentinelName · span)).map Guard.slot
          = f.body.guard?.bind f.layout.lookup? := by
      rw [Option.map_map]
      exact Option.map_id'
    rw [hfind]
    constructor
    · intro hg
      obtain ⟨g, heq, hcheck, rfl⟩ := hg
      cases heq
      refine ⟨fun l hl => ?_, hslot, fun name hn => ?_⟩
      · rw [hloop] at hl
        cases hl
      · obtain ⟨s, hs⟩ := exists_lookup?_of_guard hloop h hn
        rw [hn, Option.bind_some, hs] at hcheck
        exact ⟨s, hs, hcheck _ rfl⟩
    · intro hg
      obtain ⟨-, rfl, htype⟩ := hg
      refine ⟨_, rfl, fun g' hg' => ?_, hslot⟩
      obtain ⟨s, hs, rfl⟩ := Option.map_eq_some_iff.mp hg'
      obtain ⟨name, hn, hlookup⟩ := Option.bind_eq_some_iff.mp hs
      obtain ⟨s', hs', ht⟩ := htype name hn
      rw [hlookup] at hs'
      cases hs'
      exact ht

-- ============================================================ the body

/-- The parts that the body of a function comes to: the operations of
its initial values and of its calls, the slot that guards the calls and
the slot that is returned. -/
structure LoweredParts (functions : FunctionTable) (f : Tree.Function)
    (inits calls : List Operation) (guard : Option Slot) (slot : Slot) : Prop where
  tagged : Tagged f.body
  declares : f.Declares
  inits : LoweredInits f.layout f.body.vars inits
  guarded : Guarded f guard
  calls : List.Forall₂ (LoweredCall functions f.layout) f.body.allCalls calls
  output : f.body.output?.bind f.layout.lookup? = some slot
  result : slot.type = f.result

/-- The operations of a body, in order. -/
def bodyOperations (inits calls : List Operation) (slot : Slot) : List Operation :=
  inits ++ calls ++ [.ret slot]

/-- A body is lowered exactly to its parts in order: initial values,
calls, the return. This is the interface of the module: what later
proofs know of a lowered body, they know from here. -/
theorem outcome_lowerBody_eq_ok {f : Tree.Function} {b : LoweredBody} :
    (lowerBody functions f).outcome = .ok b ↔
      ∃ inits calls, LoweredParts functions f inits calls b.guard b.returnSlot
        ∧ b.operations = bodyOperations inits calls b.returnSlot ∧ b.symbols = f.layout := by
  have houtput : ∀ symbols : SymbolTable,
      (f.body.allCalls.getLast?.bind fun c => symbols.lookup? c.target.name)
        = f.body.output?.bind symbols.lookup? := by
    intro symbols
    unfold Tree.Body.output?
    rw [Option.bind_map]
    rfl
  unfold lowerBody
  simp only [Traced.outcome_bind, Traced.outcome_ofExcept, Traced.outcome_pure, bind_eq_ok,
    expectKind_eq_ok, outcome_lowerInits_eq_ok, outcome_lowerCalls_eq_ok, Except.ok.injEq]
  constructor
  · rintro ⟨-, htag, t₁, h₁, ⟨t₂, sentinel⟩, h₂, t, h₃, inits, hinits, g, hfind, _, hcheck,
      calls, hcalls, slot, hslot, rfl⟩
    obtain ⟨hdeclares, rfl, rfl⟩ := Tree.Function.declares_iff.mp ⟨t₁, t₂, h₁, h₂, h₃⟩
    rw [returnSlot_eq_ok hcalls, houtput] at hslot
    exact ⟨inits, calls, ⟨htag, hdeclares, hinits,
      (guarded_iff hdeclares).mp ⟨g, hfind, hcheck, rfl⟩, hcalls, hslot.1, hslot.2⟩, rfl, rfl⟩
  · rintro ⟨inits, calls, ⟨htag, hdeclares, hinits, hguarded, hcalls, hslot, hresult⟩, hops, hsym⟩
    obtain ⟨t₁, t₂, h₁, h₂, h₃⟩ := Tree.Function.declares_iff.mpr ⟨hdeclares, rfl, rfl⟩
    obtain ⟨g, hfind, hcheck, hguard⟩ := (guarded_iff hdeclares).mpr hguarded
    refine ⟨(), htag, t₁, h₁, ⟨t₂, _⟩, h₂, f.layout, h₃, inits, hinits, g, hfind, (), hcheck,
      calls, hcalls, b.returnSlot, ?_, ?_⟩
    · rw [returnSlot_eq_ok hcalls, houtput]
      exact ⟨hslot, hresult⟩
    · unfold bodyOperations at hops
      rw [hguard, ← hops, ← hsym]

end CallFlow
