/-
The two ways to write a loop are the same loop.

A body that loops under its sentinel can be written with a loop node on that variable instead.
The only difference that lowering sees is where the sentinel has its slot: behind all others, or
where it is declared. So lowering is compared under a change of slots in general
(`Renumbering`): if every name has the changed slot, then operands, initial values and calls are
accepted alike and come to the changed operations, and the code of the body to the renumbered
code. What is left is that moving one declaration to the end is such a change.
-/
import CallFlow.Proofs.Lowering.LoopCode
import Mathlib.Logic.Equiv.Defs

namespace CallFlow

open CallFlow.Tree (Tagged)

-- ===================================================== renumbered code

namespace Expr

mutual

/-- An expression with other numbers for its slots. -/
def renumber (number : Nat → Nat) : Expr → Expr
  | const c => const c
  | get i t => get (number i) t
  | set i v => set (number i) (renumber number v)
  | call f args t => call f (renumberAll number args) t
  | load t a => load t (renumber number a)
  | store t a v => store t (renumber number a) (renumber number v)
  | returnValue v => returnValue (renumber number v)
  | returnNone => returnNone
  | block l body => block l (renumberAll number body)
  | loop l body => loop l (renumberAll number body)
  | branchIf l c test => branchIf l (renumber number c) test

/-- Expressions with other numbers for their slots. -/
def renumberAll (number : Nat → Nat) : List Expr → List Expr
  | [] => []
  | e :: es => renumber number e :: renumberAll number es

end

theorem renumberAll_eq_map (number : Nat → Nat) (es : List Expr) :
    renumberAll number es = es.map (renumber number) := by
  induction es with
  | nil => rfl
  | cons e es ih => rw [renumberAll, ih, List.map_cons]

end Expr

/-- A change of slots that keeps types and parameters, with the change
of their numbers. -/
structure Renumbering where
  number : Nat → Nat
  slot : Slot → Slot
  index_slot : ∀ s, (slot s).index = number s.index
  type_slot : ∀ s, (slot s).type = s.type
  origin_slot : ∀ s, (slot s).origin = .parameter ↔ s.origin = .parameter

namespace Renumbering

attribute [simp] index_slot type_slot

variable (ρ : Renumbering)

/-- A value with its slot changed. -/
def value : Value → Value
  | .slot s => .slot (ρ.slot s)
  | .const c => .const c

/-- An operation with its slots changed. -/
def operation : Operation → Operation
  | .init s v => .init (ρ.slot s) (ρ.value v)
  | .call target f args result => .call (ρ.slot target) f (args.map ρ.value) result
  | .ret s => .ret (ρ.slot s)

@[simp]
theorem type_value (v : Value) : (ρ.value v).type = v.type := by
  cases v with
  | slot s => exact ρ.type_slot s
  | const c => rfl

/-- To read a renumbered slot is to read the slot, renumbered. -/
theorem ofSlot_slot (s : Slot) : Expr.ofSlot (ρ.slot s) = (Expr.ofSlot s).renumber ρ.number := by
  simp [Expr.ofSlot, Expr.renumber]

/-- The expression of a renumbered value is that of the value,
renumbered. -/
theorem toExpr_value (v : Value) : (ρ.value v).toExpr = v.toExpr.renumber ρ.number := by
  cases v with
  | slot s => exact ρ.ofSlot_slot s
  | const c => rfl

/-- The statement of a renumbered operation is that of the operation,
renumbered. -/
theorem toExpr_operation (op : Operation) :
    (ρ.operation op).toExpr = op.toExpr.renumber ρ.number := by
  cases op with
  | init s v => simp [operation, Operation.toExpr, Expr.renumber, toExpr_value]
  | call target f args result =>
    simp [operation, Operation.toExpr, Expr.renumber, Expr.renumberAll_eq_map, toExpr_value]
  | ret s => simp [operation, Operation.toExpr, Expr.renumber, ofSlot_slot]

/-- The code of a body on changed slots is the renumbered code. Code
reads slots only through values, operations and the guard, and each of
these is renumbered alike. -/
theorem bodyCode_operation (inits calls : List Operation) (guard : Option Slot) (slot : Slot) :
    bodyCode (inits.map ρ.operation) (calls.map ρ.operation) (guard.map ρ.slot) (ρ.slot slot)
      = Expr.renumberAll ρ.number (bodyCode inits calls guard slot) := by
  have hops : ∀ ops : List Operation, (ops.map ρ.operation).map Operation.toExpr
      = (ops.map Operation.toExpr).map (Expr.renumber ρ.number) := by
    intro ops
    simp [toExpr_operation]
  have hret := ρ.toExpr_operation (.ret slot)
  have hbranch : ∀ l s test, Expr.branchOn l (ρ.slot s) test
      = (Expr.branchOn l s test).renumber ρ.number := by
    intro l s test
    simp [Expr.branchOn, Expr.renumber, ofSlot_slot]
  rw [Expr.renumberAll_eq_map]
  cases guard with
  | none =>
    have hall : bodyOperations (inits.map ρ.operation) (calls.map ρ.operation) (ρ.slot slot)
        = (bodyOperations inits calls slot).map ρ.operation := by
      simp [bodyOperations, operation]
    rw [Option.map_none, bodyCode, bodyCode, hall, hops]
  | some g =>
    rw [Option.map_some, bodyCode, bodyCode, Graph.loopCode, Graph.loopCode, hops, hops, hbranch,
      hbranch]
    simp [Expr.renumber, Expr.renumberAll_eq_map, ← hret, operation]

end Renumbering

-- ============================================ lowering on changed slots

/-- Every name has the changed slot. -/
def SymbolTable.Renumbered (ρ : Renumbering) (t t' : SymbolTable) : Prop :=
  ∀ name, t.lookup? name = (t'.lookup? name).map ρ.slot

namespace SymbolTable.Renumbered

variable {ρ : Renumbering} {t t' : SymbolTable} {functions : FunctionTable}

/-- Under a renumbering a name has the slot that the number it had is
mapped to. -/
theorem lookup?_eq_some (h : t.Renumbered ρ t') {name : String} {s : Slot} :
    t.lookup? name = some s ↔ ∃ s', t'.lookup? name = some s' ∧ ρ.slot s' = s := by
  rw [h name, Option.map_eq_some_iff]

/-- Operands are lowered as before, up to the numbers of slots, and
nothing else is lowered. -/
theorem lowered_iff (h : t.Renumbered ρ t') (o : Tree.Operand) (v : Option Value) :
    Lowered t o v ↔ ∃ v', Lowered t' o v' ∧ v'.map ρ.value = v := by
  refine ⟨fun hv => ?_, fun hv => ?_⟩
  · cases hv with
    | reference kind bound =>
      obtain ⟨s', hs', rfl⟩ := h.lookup?_eq_some.mp bound
      exact ⟨_, .reference kind hs', rfl⟩
    | i32 kind fits => exact ⟨_, .i32 kind fits, rfl⟩
    | i64 kind wide => exact ⟨_, .i64 kind wide, rfl⟩
    | f64 kind => exact ⟨_, .f64 kind, rfl⟩
    | void kind => exact ⟨_, .void kind, rfl⟩
  · obtain ⟨v', hv', rfl⟩ := hv
    cases hv' with
    | reference kind bound => exact .reference kind (h.lookup?_eq_some.mpr ⟨_, bound, rfl⟩)
    | i32 kind fits => exact .i32 kind fits
    | i64 kind wide => exact .i64 kind wide
    | f64 kind => exact .f64 kind
    | void kind => exact .void kind

/-- Initial values are lowered as before, up to the numbers of slots. -/
theorem loweredInits_iff (h : t.Renumbered ρ t') {vs : List Tree.Variable}
    {ops : List Operation} :
    LoweredInits t vs ops ↔ ∃ ops', LoweredInits t' vs ops' ∧ ops'.map ρ.operation = ops := by
  refine ⟨fun hops => ?_, fun hops => ?_⟩
  · induction hops with
    | nil => exact ⟨[], .nil, rfl⟩
    | skip init _ ih =>
      obtain ⟨ops', hops', rfl⟩ := ih
      exact ⟨ops', .skip init hops', rfl⟩
    | init init bound operand type _ ih =>
      obtain ⟨ops', hops', rfl⟩ := ih
      obtain ⟨s', hs', rfl⟩ := h.lookup?_eq_some.mp bound
      obtain ⟨_, hv', heq⟩ := (h.lowered_iff _ _).mp operand
      obtain ⟨v', rfl, rfl⟩ := Option.map_eq_some_iff.mp heq
      rw [ρ.type_value, ρ.type_slot] at type
      exact ⟨_, .init init hs' hv' type hops', rfl⟩
  · obtain ⟨ops', hops', rfl⟩ := hops
    induction hops' with
    | nil => exact .nil
    | skip init _ ih => exact .skip init ih
    | init init bound operand type _ ih =>
      refine .init init (h.lookup?_eq_some.mpr ⟨_, bound, rfl⟩)
        ((h.lowered_iff _ _).mpr ⟨_, operand, rfl⟩) ?_ ih
      rw [ρ.type_value, ρ.type_slot, type]

/-- Calls are lowered as before, up to the numbers of slots. Signatures
do not depend on the layout at all. -/
theorem loweredCall_iff (h : t.Renumbered ρ t') (c : Tree.Call) (op : Operation) :
    LoweredCall functions t c op ↔
      ∃ op', LoweredCall functions t' c op' ∧ ρ.operation op' = op := by
  have hargs : ∀ {vs}, List.Forall₂ (Lowered t) c.args vs ↔
      ∃ vs', List.Forall₂ (Lowered t') c.args vs' ∧ vs'.map (Option.map ρ.value) = vs :=
    forall₂_iff_exists_map h.lowered_iff
  have hvalues : ∀ vs : List (Option Value), argumentValues (vs.map (Option.map ρ.value))
      = (argumentValues vs).map ρ.value := by
    intro vs
    simp [argumentValues, List.filterMap_map, List.map_filterMap]
  have htypes : ∀ vs : List Value, (vs.map ρ.value).map Value.type = vs.map Value.type := by
    intro vs
    simp
  refine ⟨fun hop => ?_, fun hop => ?_⟩
  · obtain @⟨_, _, signature, tagged, args, bound, writable, callee, types, result⟩ := hop
    obtain ⟨vs', hvs', rfl⟩ := hargs.mp args
    obtain ⟨target', htarget', rfl⟩ := h.lookup?_eq_some.mp bound
    rw [hvalues, htypes] at types
    rw [Ne, ρ.origin_slot] at writable
    rw [ρ.type_slot] at result
    refine ⟨_, .mk tagged hvs' htarget' writable callee types result, ?_⟩
    rw [hvalues, ρ.type_slot]
    rfl
  · obtain ⟨_, @⟨vs', target', signature, tagged, args, bound, writable, callee, types, result⟩,
      rfl⟩ := hop
    have hcall : LoweredCall functions t c
        (.call (ρ.slot target') c.callee.name (argumentValues (vs'.map (Option.map ρ.value)))
          (ρ.slot target').type) := by
      refine .mk tagged (hargs.mpr ⟨vs', args, rfl⟩) (h.lookup?_eq_some.mpr ⟨_, bound, rfl⟩) ?_
        callee ?_ ?_
      · rwa [Ne, ρ.origin_slot]
      · rw [hvalues, htypes, types]
      · rw [ρ.type_slot, result]
    rw [hvalues, ρ.type_slot] at hcall
    exact hcall

end SymbolTable.Renumbered

-- ============================================= one slot moved to the end

/-- The permutation that moves a position behind the next `n` and keeps
the order of all others. -/
def moveBehind (k n : Nat) : Equiv.Perm Nat where
  toFun i := if i = k then k + n else if k < i ∧ i ≤ k + n then i - 1 else i
  invFun i := if i = k + n then k else if k ≤ i ∧ i < k + n then i + 1 else i
  left_inv i := by grind
  right_inv i := by grind

/-- Moving a member behind those after it, and changing it on the way.
The number of every other member is moved by one or not at all. -/
theorem getElem?_moveBehind {α : Type} (before after : List α) (a a' : α) (i : Nat) :
    (before ++ (after ++ [a']))[moveBehind before.length after.length i]?
      = if i = before.length then some a' else (before ++ a :: after)[i]? := by
  show (before ++ (after ++ [a']))[if i = before.length then before.length + after.length
    else if before.length < i ∧ i ≤ before.length + after.length then i - 1 else i]? = _
  by_cases hk : i = before.length
  · rw [if_pos hk, if_pos hk]
    simp
  rw [if_neg hk, if_neg hk]
  by_cases hbetween : before.length < i ∧ i ≤ before.length + after.length
  · have hindex : i - before.length = i - 1 - before.length + 1 := by omega
    rw [if_pos hbetween, List.getElem?_append_right (by omega),
      List.getElem?_append_left (by omega), List.getElem?_append_right (by omega), hindex,
      List.getElem?_cons_succ]
  · rw [if_neg hbetween]
    by_cases hlow : i < before.length
    · rw [List.getElem?_append_left hlow, List.getElem?_append_left hlow]
    · rw [List.getElem?_eq_none (by simp; omega), List.getElem?_eq_none (by simp; omega)]

/-- What a slot is declared as if the variable with number `k` is the
sentinel. -/
def sentinelAt (k index : Nat) (origin : Origin) : Origin :=
  if index = k ∧ origin = .localVariable then .sentinel else origin

/-- The variable with number `k` becomes the sentinel and moves behind
the next `n`. -/
def sentinelBehind (k n : Nat) : Renumbering where
  number := moveBehind k n
  slot s :=
    { index := moveBehind k n s.index, type := s.type, origin := sentinelAt k s.index s.origin }
  index_slot _ := rfl
  type_slot _ := rfl
  origin_slot s := by
    unfold sentinelAt
    split
    · next h => simp [h.2]
    · rfl

-- ================================================== the two forms

/-- A function with its calls in a loop node. -/
def Tree.Function.withLoop (f : Tree.Function) (l : Tree.Loop) : Tree.Function :=
  { f with body := { f.body with calls := [], loop := some l } }

section Forms

variable {f : Tree.Function} {l : Tree.Loop} {before after : List Tree.Variable}
  {v : Tree.Variable} {functions : FunctionTable}

/-- Which kind of loop a function has is of no importance for its
declarations. -/
theorem declares_withLoop : (f.withLoop l).Declares ↔ f.Declares :=
  ⟨fun h => ⟨h.params, h.vars, h.nodup⟩, fun h => ⟨h.params, h.vars, h.nodup⟩⟩

/-- With a loop node, all variables are declared where they stand. -/
theorem declarations_withLoop (hvars : f.body.vars = before ++ v :: after) :
    (f.withLoop l).declarations
      = (f.params.map Tree.Param.declaration
          ++ before.map (Tree.Variable.declaration .localVariable))
        ++ v.declaration .localVariable
          :: after.map (Tree.Variable.declaration .localVariable) := by
  have hsentinel : hasSentinel (f.withLoop l).body = false := rfl
  have hvars' : (f.withLoop l).body.vars = before ++ v :: after := hvars
  unfold Tree.Function.declarations Tree.Function.variableDeclarations declarationsInPlace
  rw [hsentinel, hvars']
  simp [declaredInPlace, heldBack, Tree.Function.withLoop]

/-- Without one, the sentinel is declared last. -/
theorem declarations_of_sentinel (hloop : f.body.loop = none)
    (hvars : f.body.vars = before ++ v :: after) (hv : v.id.name = Tree.sentinelName)
    (hdeclares : f.Declares) :
    f.declarations
      = (f.params.map Tree.Param.declaration
          ++ before.map (Tree.Variable.declaration .localVariable))
        ++ (after.map (Tree.Variable.declaration .localVariable)
          ++ [v.declaration .sentinel]) := by
  have hsentinel : hasSentinel f.body = true := by
    simp [hasSentinel, hloop, hvars, hv]
  have hname : v.isSentinel = true := by simp [Tree.Variable.isSentinel, hv]
  have hbefore : ∀ w ∈ before, w.isSentinel ≠ true := by
    intro w hw hname
    have hnodup := hdeclares.nodup
    simp only [Tree.Function.declaredNames, hvars, List.map_append, List.map_cons,
      List.nodup_append, List.mem_map] at hnodup
    exact hnodup.2.1.2.2 _ ⟨w, hw, rfl⟩ _ List.mem_cons_self
      ((eq_of_beq hname).trans hv.symm)
  unfold Tree.Function.declarations Tree.Function.variableDeclarations declarationsInPlace
  rw [hsentinel, hvars, declaredInPlace_split hbefore hname, heldBack_split hbefore hname]
  simp

/-- The declarations of the two forms, by their numbers. -/
theorem getElem?_declarations (hloop : f.body.loop = none)
    (hvars : f.body.vars = before ++ v :: after) (hv : v.id.name = Tree.sentinelName)
    (hdeclares : f.Declares) (i : Nat) :
    f.declarations[moveBehind (f.params.length + before.length) after.length i]?
      = ((f.withLoop l).declarations[i]?).map fun d =>
          { d with origin := sentinelAt (f.params.length + before.length) i d.origin } := by
  have hmoved := getElem?_moveBehind (f.params.map Tree.Param.declaration
    ++ before.map (Tree.Variable.declaration .localVariable))
    (after.map (Tree.Variable.declaration .localVariable)) (v.declaration .localVariable)
    (v.declaration .sentinel) i
  rw [List.length_append, List.length_map, List.length_map, List.length_map] at hmoved
  rw [declarations_of_sentinel hloop hvars hv hdeclares, declarations_withLoop hvars, hmoved]
  by_cases hi : i = f.params.length + before.length
  · rw [if_pos hi]
    subst hi
    simp [sentinelAt, Tree.Variable.declaration]
  · rw [if_neg hi]
    simp [sentinelAt, hi]

/-- Every name has its slot in the table of one form where it has it in
the other, but for the move of the sentinel. The numbers in front of the
sentinel stay, those behind it go down by one, and the sentinel gets the
last. -/
theorem renumbered_layout (hloop : f.body.loop = none)
    (hvars : f.body.vars = before ++ v :: after) (hv : v.id.name = Tree.sentinelName)
    (hdeclares : f.Declares) :
    f.layout.Renumbered (sentinelBehind (f.params.length + before.length) after.length)
      (f.withLoop l).layout := by
  intro name
  ext slot
  have hget := getElem?_declarations (l := l) hloop hvars hv hdeclares
  have hdeclares' : (f.withLoop l).Declares := declares_withLoop.mpr hdeclares
  rw [Option.map_eq_some_iff, Tree.Function.lookup?_layout hdeclares]
  refine ⟨fun h => ?_, fun h => ?_⟩
  · obtain ⟨d, hd, rfl, hslot⟩ := h
    obtain ⟨i, hi⟩ := (moveBehind (f.params.length + before.length) after.length).surjective
      slot.index
    rw [← hi, hget, Option.map_eq_some_iff] at hd
    obtain ⟨d', hd', rfl⟩ := hd
    refine ⟨d'.slot i, (Tree.Function.lookup?_layout hdeclares').mpr ⟨d', hd', rfl, rfl⟩, ?_⟩
    rw [hslot, ← hi]
    rfl
  · obtain ⟨s', hs', rfl⟩ := h
    obtain ⟨d', hd', rfl, hslot⟩ := (Tree.Function.lookup?_layout hdeclares').mp hs'
    have hd := hget s'.index
    rw [hd', Option.map_some] at hd
    refine ⟨_, hd, rfl, ?_⟩
    rw [hslot]
    rfl

/-- A body whose loop node, if it has one, stands alone is guarded by a
slot of type `i32`. -/
theorem guarded_of_guard? {f : Tree.Function} {name : String} {guard : Option Slot}
    (hloop : ∀ l, f.body.loop = some l → Tagged l ∧ f.body.calls = [])
    (hguard : f.body.guard? = some name) :
    Guarded f guard ↔ ∃ s, f.layout.lookup? name = some s ∧ s.type = .i32 ∧ some s = guard := by
  refine ⟨fun h => ?_, fun h => ?_⟩
  · obtain ⟨s, hs, htype⟩ := h.type name hguard
    refine ⟨s, hs, htype, ?_⟩
    rw [h.slot, hguard, Option.bind_some, hs]
  · obtain ⟨s, hs, htype, rfl⟩ := h
    refine ⟨hloop, ?_, fun name' hname' => ?_⟩
    · rw [hguard, Option.bind_some, hs]
    · rw [hguard] at hname'
      cases hname'
      exact ⟨s, hs, htype⟩

/-- The two forms come to the same parts, but for the move of the
sentinel. Each part is looked up in a table that is the other one
renumbered, so it is the other part renumbered. This goes for initial
values, calls, the guard and the return in turn. -/
theorem loweredParts_withLoop (hloop : f.body.loop = none)
    (hvars : f.body.vars = before ++ v :: after) (hv : v.id.name = Tree.sentinelName)
    (htag : Tagged l) (hcondition : l.condition.name = Tree.sentinelName)
    (hcalls : l.calls = f.body.calls) {inits calls : List Operation} {guard : Option Slot}
    {slot : Slot} :
    LoweredParts functions f inits calls guard slot ↔
      ∃ inits' calls' guard' slot',
        LoweredParts functions (f.withLoop l) inits' calls' guard' slot'
          ∧ inits'.map (sentinelBehind (f.params.length + before.length) after.length).operation
              = inits
          ∧ calls'.map (sentinelBehind (f.params.length + before.length) after.length).operation
              = calls
          ∧ guard'.map (sentinelBehind (f.params.length + before.length) after.length).slot = guard
          ∧ (sentinelBehind (f.params.length + before.length) after.length).slot slot' = slot := by
  generalize hρ : sentinelBehind (f.params.length + before.length) after.length = ρ
  have hlayout : f.Declares → f.layout.Renumbered ρ (f.withLoop l).layout := by
    rw [← hρ]
    exact renumbered_layout hloop hvars hv
  have hguard : f.body.guard? = some Tree.sentinelName := by
    simp [Tree.Body.guard?, hloop, hvars, hv]
  have hguard' : (f.withLoop l).body.guard? = some Tree.sentinelName := by
    rw [← hcondition]
    rfl
  have hnone : ∀ l', f.body.loop = some l' → Tagged l' ∧ f.body.calls = [] := by
    intro l' hl'
    rw [hloop] at hl'
    cases hl'
  have hnode : ∀ l', (f.withLoop l).body.loop = some l' →
      Tagged l' ∧ (f.withLoop l).body.calls = [] := by
    intro l' hl'
    cases hl'
    exact ⟨htag, rfl⟩
  have hall : (f.withLoop l).body.allCalls = f.body.allCalls := by
    rw [Tree.Body.allCalls, Tree.Body.allCalls, hloop]
    exact hcalls
  have houtput : (f.withLoop l).body.output? = f.body.output? := by
    rw [Tree.Body.output?, Tree.Body.output?, hall]
  refine ⟨fun h => ?_, fun h => ?_⟩
  · have ht := hlayout h.declares
    obtain ⟨inits', hinits', rfl⟩ := ht.loweredInits_iff.mp h.inits
    obtain ⟨calls', hcalls', rfl⟩ := (forall₂_iff_exists_map ht.loweredCall_iff).mp h.calls
    obtain ⟨_, hs, htype, rfl⟩ := (guarded_of_guard? hnone hguard).mp h.guarded
    obtain ⟨s', hs', rfl⟩ := ht.lookup?_eq_some.mp hs
    obtain ⟨name, hname, hslot⟩ := Option.bind_eq_some_iff.mp h.output
    obtain ⟨slot', hslot', rfl⟩ := ht.lookup?_eq_some.mp hslot
    refine ⟨inits', calls', some s', slot', ⟨h.tagged, declares_withLoop.mpr h.declares, hinits',
      (guarded_of_guard? hnode hguard').mpr ⟨s', hs', ?_, rfl⟩, ?_, ?_, ?_⟩, rfl, rfl, rfl, rfl⟩
    · rwa [ρ.type_slot] at htype
    · rwa [hall]
    · rw [houtput, hname, Option.bind_some, hslot']
    · have hresult := h.result
      rwa [ρ.type_slot] at hresult
  · obtain ⟨inits', calls', guard', slot', h, rfl, rfl, rfl, rfl⟩ := h
    have hdeclares := declares_withLoop.mp h.declares
    have ht := hlayout hdeclares
    obtain ⟨s', hs', htype, rfl⟩ := (guarded_of_guard? hnode hguard').mp h.guarded
    obtain ⟨name, hname, hslot'⟩ := Option.bind_eq_some_iff.mp h.output
    refine ⟨h.tagged, hdeclares, ht.loweredInits_iff.mpr ⟨inits', h.inits, rfl⟩,
      (guarded_of_guard? hnone hguard).mpr
        ⟨ρ.slot s', ht.lookup?_eq_some.mpr ⟨s', hs', rfl⟩, ?_, rfl⟩,
      (forall₂_iff_exists_map ht.loweredCall_iff).mpr ⟨calls', ?_, rfl⟩, ?_, ?_⟩
    · rw [ρ.type_slot, htype]
    · have hcalls' := h.calls
      rwa [hall] at hcalls'
    · rw [← houtput, hname, Option.bind_some]
      exact ht.lookup?_eq_some.mpr ⟨slot', hslot', rfl⟩
    · rw [ρ.type_slot]
      exact h.result

/-- The slots of a lowered function are its declarations. -/
theorem slots_loweredFunction (f : Tree.Function) (inits calls : List Operation)
    (guard : Option Slot) (slot : Slot) (i : Nat) :
    (loweredFunction f inits calls guard slot).slotType? i
        = (f.declarations[i]?).map Declaration.type
      ∧ (loweredFunction f inits calls guard slot).slotNames[i]?
        = (f.declarations[i]?).map Declaration.name := by
  refine ⟨?_, ?_⟩
  · rw [← List.getElem?_map, Tree.Function.declarations, List.map_append, List.map_map]
    rfl
  · rw [← List.getElem?_map]
    show f.layout.names[i]? = _
    rw [Tree.Function.layout, SymbolTable.names_pushAll]
    rfl

end Forms

/-- A loop under the sentinel and a loop node on it are the same loop.
Take a function without a loop node that declares the sentinel, and put
its calls into a loop node on that variable. One form is accepted
exactly when the other is. Then the functions have the same parameters
and result, and the slots with their types and names, and the code, of
the first are those of the second, renumbered so that the sentinel moves
from where it is declared behind the variables after it and all other
slots keep their order. -/
theorem lowerFunction_loop_forms {functions : FunctionTable} {f : Tree.Function} {l : Tree.Loop}
    {before after : List Tree.Variable} {v : Tree.Variable} (hloop : f.body.loop = none)
    (hvars : f.body.vars = before ++ v :: after) (hv : v.id.name = Tree.sentinelName)
    (htag : Tagged l) (hcondition : l.condition.name = Tree.sentinelName)
    (hcalls : l.calls = f.body.calls) :
    ((∃ g, (lowerFunction functions f).outcome = .ok g) ↔
        ∃ g, (lowerFunction functions (f.withLoop l)).outcome = .ok g)
      ∧ ∀ g g', (lowerFunction functions f).outcome = .ok g →
          (lowerFunction functions (f.withLoop l)).outcome = .ok g' →
          g.params = g'.params ∧ g.result = g'.result
            ∧ (∀ i, g.slotType? (moveBehind (f.params.length + before.length) after.length i)
                = g'.slotType? i)
            ∧ (∀ i, g.slotNames[moveBehind (f.params.length + before.length) after.length i]?
                = g'.slotNames[i]?)
            ∧ g.body = Expr.renumberAll
                (moveBehind (f.params.length + before.length) after.length) g'.body := by
  have hparts := @loweredParts_withLoop f l before after v functions hloop hvars hv htag hcondition
    hcalls
  refine ⟨⟨fun h => ?_, fun h => ?_⟩, fun g g' hg hg' => ?_⟩
  · obtain ⟨g, hg⟩ := h
    obtain ⟨inits, calls, guard, slot, h, -⟩ := outcome_lowerFunction_eq_ok.mp hg
    obtain ⟨inits', calls', guard', slot', h', -⟩ := hparts.mp h
    exact ⟨_, outcome_lowerFunction_eq_ok.mpr ⟨inits', calls', guard', slot', h', rfl⟩⟩
  · obtain ⟨g', hg'⟩ := h
    obtain ⟨inits', calls', guard', slot', h', -⟩ := outcome_lowerFunction_eq_ok.mp hg'
    have h := hparts.mpr ⟨inits', calls', guard', slot', h', rfl, rfl, rfl, rfl⟩
    exact ⟨_, outcome_lowerFunction_eq_ok.mpr ⟨_, _, _, _, h, rfl⟩⟩
  · obtain ⟨inits', calls', guard', slot', h', rfl⟩ := outcome_lowerFunction_eq_ok.mp hg'
    have h := hparts.mpr ⟨inits', calls', guard', slot', h', rfl, rfl, rfl, rfl⟩
    -- lowering gives one result, so `g` is the one that the second form leads to
    rw [outcome_lowerFunction_eq_ok.mpr ⟨_, _, _, _, h, rfl⟩] at hg
    cases hg
    have hget := getElem?_declarations (l := l) hloop hvars hv h.declares
    refine ⟨rfl, rfl, fun i => ?_, fun i => ?_, Renumbering.bodyCode_operation _ _ _ _ _⟩
    · rw [(slots_loweredFunction _ _ _ _ _ _).1, (slots_loweredFunction _ _ _ _ _ _).1, hget,
        Option.map_map]
      rfl
    · rw [(slots_loweredFunction _ _ _ _ _ _).2, (slots_loweredFunction _ _ _ _ _ _).2, hget,
        Option.map_map]
      rfl

/-- A function with the sentinel between two other variables, which is
read and assigned. -/
def Tree.Function.middle : Tree.Function where
  id := { name := "middle" }
  params := [{ id := { name := "n" }, type := .i32 }]
  result := .i32
  body :=
    { vars := [{ id := { name := "x" }, type := .f64, init := some (.float ⟨0⟩) },
               { id := { name := sentinelName }, type := .i32, init := some (.reference "n") },
               { id := { name := "y" }, type := .i32, init := some (.reference sentinelName) }]
      calls := [{ target := { name := sentinelName }, callee := { name := "next" }
                  args := [.reference sentinelName] },
                { target := { name := "y" }, callee := { name := "next" }
                  args := [.reference "y"] }] }

/-- The loop node for `middle`. -/
def Tree.Loop.middle : Tree.Loop where
  condition := { name := sentinelName }
  calls := Tree.Function.middle.body.calls

/-- The table that `middle` is lowered against. -/
def FunctionTable.middle : FunctionTable where
  entries := [("next", .ofTypes [.i32] .i32 .imported)]

/-- Both forms of `middle` are accepted; the sentinel has slot 3 in one
and 2 in the other. -/
theorem middle_loop_forms :
    ∃ g g', (lowerFunction .middle .middle).outcome = .ok g
      ∧ (lowerFunction .middle (Tree.Function.middle.withLoop .middle)).outcome = .ok g'
      ∧ g.slotNames = ["n", "x", "y", "_breqz"] ∧ g'.slotNames = ["n", "x", "_breqz", "y"]
      ∧ g.body = Expr.renumberAll (moveBehind 2 1) g'.body := by
  obtain ⟨g, g', hg, hg', hnames, hnames'⟩ : ∃ g g' : Function,
      (lowerFunction .middle .middle).outcome = .ok g
        ∧ (lowerFunction .middle (Tree.Function.middle.withLoop .middle)).outcome = .ok g'
        ∧ g.slotNames = ["n", "x", "y", "_breqz"] ∧ g'.slotNames = ["n", "x", "_breqz", "y"] :=
    ⟨_, _, rfl, rfl, rfl, rfl⟩
  obtain ⟨-, -, -, -, hbody⟩ :=
    (@lowerFunction_loop_forms _ .middle .middle [_] [_] _ rfl rfl rfl rfl rfl rfl).2 g g' hg hg'
  exact ⟨g, g', hg, hg', hnames, hnames', hbody⟩

end CallFlow
