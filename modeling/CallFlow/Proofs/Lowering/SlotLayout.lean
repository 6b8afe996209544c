/-
Where the variables of a function are kept, and that its code looks for them there.

A lowered function shows its layout in three views: the names of its slots, the types of its
parameters and those of its locals. They are cut from one table by different filters, and the
sentinel enters the table last, wherever it is declared. The first part says that the views agree
and what the order is.

# Places

The second part follows the variables into the code. A place is where an operation or an
expression has either a slot or a literal, and where a statement of the source has either a name
or a literal. Read in order, the places of the source and those of the operations, of the blocks
of the graph and of the code correspond one to one: slots stand where names stand, and the slot is
the one that the name has in the layout, used at the type that the variable is declared with
(`UsesAsWritten`). An assignment uses its slot at the type of what it assigns.
-/
import CallFlow.Proofs.Lowering.Encodable
import CallFlow.Proofs.Lowering.LoopForms

namespace CallFlow

-- ================================================== the order of slots

namespace Tree

/-- The variables of a body in the order of their slots: as they are
declared, except that without a loop node the sentinel comes last. -/
def Body.inSlotOrder (body : Body) : List Variable :=
  match body.loop with
  | some _ => body.vars
  | none =>
    body.vars.filter (fun v => v.id.name ≠ sentinelName)
      ++ body.vars.filter fun v => v.id.name = sentinelName

end Tree

open CallFlow.Tree (sentinelName)

/-- Taking out the first sentinel and putting it last is sorting the
sentinels to the end, as there is no second one. Both lists have the
other variables in the order in which they are declared. -/
theorem eraseP_append_find? {vs : List Tree.Variable}
    (h : (vs.map fun v => v.id.name).Nodup) :
    vs.eraseP Tree.Variable.isSentinel ++ (vs.find? Tree.Variable.isSentinel).toList
      = vs.filter (fun v => v.id.name ≠ sentinelName)
        ++ vs.filter fun v => v.id.name = sentinelName := by
  induction vs with
  | nil => rfl
  | cons v vs ih =>
    rw [List.map_cons, List.nodup_cons] at h
    by_cases hv : v.id.name = sentinelName
    · have hrest : ∀ w ∈ vs, w.id.name ≠ sentinelName := by
        intro w hw hname
        exact h.1 (List.mem_map.mpr ⟨w, hw, hname.trans hv.symm⟩)
      have hothers : vs.filter (fun v => v.id.name ≠ sentinelName) = vs := by
        rw [List.filter_eq_self]
        intro w hw
        simpa using hrest w hw
      have hnone : vs.filter (fun v => v.id.name = sentinelName) = [] := by
        rw [List.filter_eq_nil_iff]
        intro w hw
        simpa using hrest w hw
      rw [List.eraseP_cons_of_pos (Tree.Variable.isSentinel_iff.mpr hv),
        List.find?_cons_of_pos (Tree.Variable.isSentinel_iff.mpr hv),
        List.filter_cons_of_neg (by simpa using hv), List.filter_cons_of_pos (by simpa using hv),
        hothers, hnone]
      rfl
    · have hfalse : ¬ v.isSentinel = true := fun hs => hv (Tree.Variable.isSentinel_iff.mp hs)
      rw [List.eraseP_cons_of_neg hfalse, List.find?_cons_of_neg hfalse,
        List.filter_cons_of_pos (by simpa using hv), List.filter_cons_of_neg (by simpa using hv),
        List.cons_append, List.cons_append, ih h.2]

/-- Variables in place and the one held back are the variables in the
order of their slots, provided that their names differ. -/
theorem inSlotOrder_eq {body : Tree.Body} (h : (body.vars.map fun v => v.id.name).Nodup) :
    declaredInPlace (hasSentinel body) body.vars ++ (heldBack (hasSentinel body) body.vars).toList
      = body.inSlotOrder := by
  unfold Tree.Body.inSlotOrder
  cases hloop : body.loop with
  | some l =>
    have hnone : hasSentinel body = false := by
      unfold hasSentinel
      rw [hloop]
      rfl
    rw [hnone]
    exact List.append_nil _
  | none =>
    rw [← eraseP_append_find? h]
    by_cases hs : hasSentinel body = true
    · rw [hs]
      rfl
    · have hany : (body.vars.any Tree.Variable.isSentinel) = false := by
        unfold hasSentinel at hs
        rw [hloop] at hs
        exact Bool.eq_false_iff.mpr hs
      have hmem : ∀ v ∈ body.vars, ¬ v.isSentinel = true := by
        simpa using hany
      rw [Bool.eq_false_iff.mpr hs, List.eraseP_of_forall_not hmem, List.find?_eq_none.mpr hmem]
      rfl

-- ============================================================= the views

namespace Tree.Function

variable {f : Tree.Function}

/-- Each parameter and each variable has a slot, also the one held back. -/
theorem length_declarations (f : Tree.Function) :
    f.declarations.length = f.params.length + f.body.vars.length := by
  have h := f.variableDeclarations_perm.length_eq
  rw [List.length_map, List.length_map] at h
  rw [declarations, List.length_append, List.length_map, h]

/-- A function that declares its slots has each name in scope once. -/
theorem nodup_scope (h : f.Declares) : (f.scope.map Prod.fst).Nodup := by
  have hnames : f.scope.map Prod.fst = f.declaredNames := by
    unfold scope declaredNames
    rw [List.map_append, List.map_map, List.map_map]
    rfl
  rw [hnames]
  exact h.nodup

/-- The type that a variable is declared with. -/
def typeOf? (f : Tree.Function) (name : String) : Option ValueType :=
  f.scope.lookup name

/-- The type in scope of a declared name is the type it is declared
with. -/
theorem typeOf?_declaration (h : f.Declares) {d : Declaration} (hd : d ∈ f.declarations) :
    f.typeOf? d.name = some d.type := by
  rw [typeOf?, lookup_eq_some_of_nodup (nodup_scope h), ← f.declarations_perm_scope.mem_iff]
  exact List.mem_map.mpr ⟨d, hd, rfl⟩

/-- The names of the slots, in order. -/
theorem names_layout (h : f.Declares) :
    f.layout.names
      = (f.params.map fun p => p.id.name) ++ f.body.inSlotOrder.map fun v => v.id.name := by
  have hvars : (f.body.vars.map fun v => v.id.name).Nodup := (List.nodup_append.mp h.nodup).2.1
  have hnames : f.layout.names = f.declarations.map Declaration.name :=
    SymbolTable.names_pushAll {} _
  rw [hnames, names_declarations, ← inSlotOrder_eq hvars, List.map_append, List.append_assoc]

end Tree.Function

/-- The views of the layout of a lowered function agree with each other
and with the source. -/
structure LaidOut (f : Tree.Function) (g : Function) : Prop where
  /-- Parameters come first, then the variables, and last the sentinel
  of a body without a loop node. -/
  names : g.slotNames
    = (f.params.map fun p => p.id.name) ++ f.body.inSlotOrder.map fun v => v.id.name
  nodup : g.slotNames.Nodup
  slotCount : g.slotCount = f.params.length + f.body.vars.length
  length_slotNames : g.slotNames.length = f.params.length + f.body.vars.length
  /-- A slot has the type that the variable of its name is declared
  with. -/
  types : ∀ i, g.slotType? i = (g.slotName? i).bind f.typeOf?
  /-- There is a slot for each variable, and no other. -/
  bound : ∀ i, (g.slotType? i).isSome ↔ i < f.params.length + f.body.vars.length

section Parts

variable {functions : FunctionTable} {f : Tree.Function} {inits calls : List Operation}
  {guard : Option Slot} {slot : Slot}

/-- The slots of the lowered function are laid out as the declarations
say. -/
theorem laidOut_loweredFunction (h : f.Declares) :
    LaidOut f (loweredFunction f inits calls guard slot) := by
  have hslots := slots_loweredFunction f inits calls guard slot
  have hnames : (loweredFunction f inits calls guard slot).slotNames
      = f.declarations.map Declaration.name := SymbolTable.names_pushAll {} _
  have hlength := f.length_declarations
  refine ⟨Tree.Function.names_layout h, ?_, ?_, ?_, fun i => ?_, fun i => ?_⟩
  · rw [hnames]
    exact h.nodup_declarations
  · rw [← hlength, Tree.Function.declarations, List.length_append, Function.slotCount,
      loweredFunction, List.length_map, List.length_map, List.length_map]
  · rw [hnames, List.length_map, hlength]
  · rw [(hslots i).1, Function.slotName?, (hslots i).2]
    cases hd : f.declarations[i]? with
    | none => rfl
    | some d => exact (Tree.Function.typeOf?_declaration h (List.mem_of_getElem? hd)).symm
  · rw [(hslots i).1, Option.isSome_map, ← hlength]
    simp

end Parts

-- ==================================================== places of the source

namespace Tree

/-- The variable that an operand names; a literal names none. -/
def Operand.variable? (o : Operand) : Option String :=
  match o.kind with
  | .ok (.reference name) => some name
  | _ => none

/-- Whether an operand is a value: `Void` is none. -/
def Operand.isValue (o : Operand) : Bool :=
  match o.kind with
  | .ok .void => false
  | _ => true

/-- The places of an initial value: the variable that gets it, and the
operand. -/
def Variable.places? (v : Variable) : Option (List (Option String)) :=
  v.init.map fun o => [some v.id.name, o.variable?]

/-- The places of a call: its target, and the arguments that are values. -/
def Call.places (c : Call) : List (Option String) :=
  some c.target.name :: (c.args.filter Operand.isValue).map Operand.variable?

namespace Body

/-- The places of the initial values, one list for each. -/
def initPlaces (body : Body) : List (List (Option String)) :=
  body.vars.filterMap Variable.places?

/-- The places of the calls, one list for each. -/
def callPlaces (body : Body) : List (List (Option String)) :=
  body.allCalls.map Call.places

/-- The place of the guard where it is tested, if there is a guard. -/
def guardPlaces (body : Body) : List (List (Option String)) :=
  body.guard?.toList.map fun name => [some name]

/-- The place of what is returned. -/
def outputPlaces (body : Body) : List (List (Option String)) :=
  body.output?.toList.map fun name => [some name]

end Body

end Tree

-- ====================================================== places of the code

/-- A slot as it is used: its number, and the type of what is read or
assigned. -/
abbrev Use := Nat × ValueType

/-- The use of a slot at its own type. -/
def Slot.use (s : Slot) : Use :=
  (s.index, s.type)

/-- The slot that a value uses; a literal uses none. -/
def Value.use? : Value → Option Use
  | slot s => some s.use
  | const _ => none

/-- The places of an operation. -/
def Operation.uses : Operation → List (Option Use)
  | init slot value => [some slot.use, value.use?]
  | call target _ args _ => some target.use :: args.map Value.use?
  | ret slot => [some slot.use]

namespace Expr

mutual

/-- The places of an expression in reading order. An assignment uses its
slot at the type of what it assigns. -/
def uses : Expr → List (Option Use)
  | const _ => [none]
  | get i t => [some (i, t)]
  | set i v => some (i, v.type) :: uses v
  | call _ args _ => usesAll args
  | load _ a => uses a
  | store _ a v => uses a ++ uses v
  | returnValue v => uses v
  | returnNone => []
  | block _ body => usesAll body
  | loop _ body => usesAll body
  | branchIf _ c _ => uses c

/-- The places of expressions in order. -/
def usesAll : List Expr → List (Option Use)
  | [] => []
  | e :: es => uses e ++ usesAll es

end

/-- The uses of slots in code are those of its parts, in order. -/
theorem usesAll_append (es es' : List Expr) :
    usesAll (es ++ es') = usesAll es ++ usesAll es' := by
  induction es with
  | nil => simp [usesAll]
  | cons e es ih => simp [usesAll, ih]

end Expr

/-- The types in an operation agree: what is assigned has the type of
the slot. -/
def Operation.AtType : Operation → Prop
  | init slot value => value.type = slot.type
  | call target _ _ result => result = target.type
  | ret _ => True

theorem Value.uses_toExpr (v : Value) : v.toExpr.uses = [v.use?] := by
  cases v <;> simp [Value.toExpr, Expr.ofSlot, Expr.uses, Value.use?, Slot.use]

theorem Value.usesAll_toExpr (vs : List Value) :
    Expr.usesAll (vs.map Value.toExpr) = vs.map Value.use? := by
  induction vs with
  | nil => simp [Expr.usesAll]
  | cons v vs ih => simp [Expr.usesAll, Value.uses_toExpr, ih]

/-- The code of an operation uses what the operation uses. -/
theorem Operation.uses_toExpr {op : Operation} (h : op.AtType) : op.toExpr.uses = op.uses := by
  cases op with
  | init slot value =>
    have htype : value.type = slot.type := h
    simp [toExpr, Expr.uses, Value.uses_toExpr, Value.type_toExpr, htype, uses, Slot.use]
  | call target function args result =>
    have htype : result = target.type := h
    simp [toExpr, Expr.uses, Value.usesAll_toExpr, Expr.type, htype, uses, Slot.use]
  | ret slot => simp [toExpr, Expr.uses, Expr.ofSlot, uses, Slot.use]

/-- The code of operations uses the slots that the operations use, in
the same order. -/
theorem Operation.usesAll_toExpr {ops : List Operation} (h : ∀ op ∈ ops, op.AtType) :
    Expr.usesAll (ops.map Operation.toExpr) = (ops.map Operation.uses).flatten := by
  induction ops with
  | nil => simp [Expr.usesAll]
  | cons op ops ih =>
    obtain ⟨hop, hops⟩ := List.forall_mem_cons.mp h
    simp [Expr.usesAll, Operation.uses_toExpr hop, ih hops]

-- ========================================================== reading back

/-- A use of a slot, by the name of the slot. -/
def Function.readBack (g : Function) (u : Use) : Option String × Option ValueType :=
  (g.slotName? u.1, some u.2)

/-- A variable, with the type that it is declared with. -/
def Tree.Function.written (f : Tree.Function) (name : String) : Option String × Option ValueType :=
  (some name, f.typeOf? name)

/-- Places of the code and of the source correspond: literals to
literals, and slots to the variables that they are for. -/
def Corresponds (f : Tree.Function) (g : Function) (uses : List (Option Use))
    (names : List (Option String)) : Prop :=
  uses.map (Option.map g.readBack) = names.map (Option.map f.written)

/-- Operations correspond to statements of the source one by one. -/
abbrev Perform (f : Tree.Function) (g : Function) (ops : List Operation)
    (statements : List (List (Option String))) : Prop :=
  List.Forall₂ (fun op names => Corresponds f g op.uses names) ops statements

theorem Corresponds.append {f : Tree.Function} {g : Function} {us us' : List (Option Use)}
    {ns ns' : List (Option String)} (h : Corresponds f g us ns) (h' : Corresponds f g us' ns') :
    Corresponds f g (us ++ us') (ns ++ ns') := by
  unfold Corresponds at h h' ⊢
  rw [List.map_append, List.map_append, h, h']

/-- If operations perform statements one by one, all their uses
correspond to all the places, in order. -/
theorem Perform.flatten {f : Tree.Function} {g : Function} {ops : List Operation}
    {statements : List (List (Option String))} (h : Perform f g ops statements) :
    Corresponds f g (ops.map Operation.uses).flatten statements.flatten := by
  induction h with
  | nil => rfl
  | cons hop _ ih => exact hop.append ih

section Statements

variable {functions : FunctionTable} {f : Tree.Function} {g : Function}
  (hread : ∀ name s, f.layout.lookup? name = some s → g.readBack s.use = f.written name)

include hread

/-- A lowered operand uses the slot of the variable that is written
there, or none where a constant is written. -/
theorem readBack_operand {o : Tree.Operand} {v : Value} (h : Lowered f.layout o (some v)) :
    o.isValue = true ∧ v.use?.map g.readBack = o.variable?.map f.written := by
  cases h with
  | reference kind bound =>
    simp [Tree.Operand.isValue, Tree.Operand.variable?, kind, Value.use?, hread _ _ bound]
  | i32 kind fits => simp [Tree.Operand.isValue, Tree.Operand.variable?, kind, Value.use?]
  | i64 kind wide => simp [Tree.Operand.isValue, Tree.Operand.variable?, kind, Value.use?]
  | f64 kind => simp [Tree.Operand.isValue, Tree.Operand.variable?, kind, Value.use?]

/-- Arguments stand in order, without those of `Void`. -/
theorem corresponds_args {os : List Tree.Operand} {vs : List (Option Value)}
    (h : List.Forall₂ (Lowered f.layout) os vs) :
    Corresponds f g ((argumentValues vs).map Value.use?)
      ((os.filter Tree.Operand.isValue).map Tree.Operand.variable?) := by
  unfold Corresponds
  induction h with
  | nil => rfl
  | @cons o v os vs ho _ ih =>
    cases v with
    | none =>
      have hvoid : ¬ o.isValue = true := by
        cases ho with
        | void kind => simp [Tree.Operand.isValue, kind]
      rw [List.filter_cons_of_neg hvoid]
      exact ih
    | some v =>
      obtain ⟨hvalue, hv⟩ := readBack_operand hread ho
      rw [List.filter_cons_of_pos hvalue, List.map_cons, List.map_cons, ← hv, ← ih]
      rfl

/-- Initial values are performed in order, each at the type of its slot. -/
theorem perform_inits {vs : List Tree.Variable} {ops : List Operation}
    (h : LoweredInits f.layout vs ops) :
    Perform f g ops (vs.filterMap Tree.Variable.places?) ∧ ∀ op ∈ ops, op.AtType := by
  induction h with
  | nil => exact ⟨.nil, List.forall_mem_nil _⟩
  | @skip v vs ops init _ ih =>
    have hplaces : v.places? = none := by rw [Tree.Variable.places?, init, Option.map_none]
    rw [List.filterMap_cons_none hplaces]
    exact ih
  | @init v vs ops o slot value init bound operand type _ ih =>
    have hplaces : v.places? = some [some v.id.name, o.variable?] := by
      rw [Tree.Variable.places?, init, Option.map_some]
    rw [List.filterMap_cons_some hplaces]
    refine ⟨.cons ?_ ih.1, List.forall_mem_cons.mpr ⟨type, ih.2⟩⟩
    simp [Corresponds, Operation.uses, hread _ _ bound, (readBack_operand hread operand).2]

/-- Calls are performed in order, each with its target and its arguments
at the places that the source has them at. -/
theorem perform_calls {cs : List Tree.Call} {ops : List Operation}
    (h : List.Forall₂ (LoweredCall functions f.layout) cs ops) :
    Perform f g ops (cs.map Tree.Call.places) ∧ ∀ op ∈ ops, op.AtType := by
  induction h with
  | nil => exact ⟨.nil, List.forall_mem_nil _⟩
  | cons hcall _ ih =>
    obtain @⟨vs, target, signature, -, args, bound, -⟩ := hcall
    refine ⟨.cons ?_ ih.1, List.forall_mem_cons.mpr ⟨rfl, ih.2⟩⟩
    have htarget := hread _ _ bound
    have hargs := corresponds_args hread args
    unfold Corresponds at hargs ⊢
    simp only [Operation.uses, Tree.Call.places, List.map_cons, Option.map_some, htarget, hargs]

end Statements

-- ======================================================== the function

/-- Wherever a slot stands in the operations, in the code or in the
graph of a lowered function, it is the slot of the variable that the
source names at that place, used at the declared type. The guard is
tested in front of the first round and behind each. -/
structure UsesAsWritten (functions : FunctionTable) (f : Tree.Function) (g : Function) :
    Prop where
  operations : ∃ b, (lowerBody functions f).outcome = .ok b
    ∧ Perform f g b.operations (f.body.initPlaces ++ f.body.callPlaces ++ f.body.outputPlaces)
  body : Corresponds f g (Expr.usesAll g.body) (f.body.initPlaces ++ f.body.guardPlaces
    ++ f.body.callPlaces ++ f.body.guardPlaces ++ f.body.outputPlaces).flatten
  blocks : ∀ graph, g.graph = some graph → List.Forall₂ (Perform f g)
    (graph.blocks.map Block.operations)
    [f.body.initPlaces, [], f.body.callPlaces, f.body.outputPlaces]
  edges : ∀ graph, g.graph = some graph → Corresponds f g
    (graph.edges.filterMap fun e => e.trigger.slot?.map fun s => some s.use)
    (f.body.guardPlaces ++ f.body.guardPlaces).flatten

section Functions

variable {functions : FunctionTable} {f : Tree.Function} {inits calls : List Operation}
  {guard : Option Slot} {slot : Slot}

/-- The slot of a variable, read back. -/
theorem readBack_loweredFunction (h : f.Declares) {name : String} {s : Slot}
    (hs : f.layout.lookup? name = some s) :
    (loweredFunction f inits calls guard slot).readBack s.use = f.written name := by
  obtain ⟨d, hd, rfl, hslot⟩ := (Tree.Function.lookup?_layout h).mp hs
  have hname : (loweredFunction f inits calls guard slot).slotName? s.index = some d.name := by
    rw [Function.slotName?, (slots_loweredFunction _ _ _ _ _ _).2, hd]
    rfl
  have htype : f.typeOf? d.name = some s.type := by
    rw [Tree.Function.typeOf?_declaration h (List.mem_of_getElem? hd), hslot]
    rfl
  rw [Function.readBack, Tree.Function.written, htype]
  exact congrArg (·, some s.type) hname

/-- The guard of a lowered body is tested for the variable that guards
it. -/
theorem corresponds_guard {g : Function}
    (hread : ∀ name s, f.layout.lookup? name = some s → g.readBack s.use = f.written name)
    (h : Guarded f guard) :
    Corresponds f g (guard.toList.map fun s => some s.use) f.body.guardPlaces.flatten := by
  rw [h.slot, Tree.Body.guardPlaces]
  cases hname : f.body.guard? with
  | none => rfl
  | some name =>
    obtain ⟨s, hs, -⟩ := h.type name hname
    simp [Corresponds, hs, hread _ _ hs]

/-- The places of the code of a body: those of its operations, and the
guard in front of the calls and behind them. -/
theorem usesAll_bodyCode (hinits : ∀ op ∈ inits, op.AtType) (hcalls : ∀ op ∈ calls, op.AtType) :
    Expr.usesAll (bodyCode inits calls guard slot)
      = (inits.map Operation.uses).flatten ++ (guard.toList.map fun s => some s.use)
        ++ (calls.map Operation.uses).flatten ++ (guard.toList.map fun s => some s.use)
        ++ [some slot.use] := by
  have hret : (Operation.ret slot).toExpr.uses = [some slot.use] :=
    @Operation.uses_toExpr (.ret slot) trivial
  cases guard with
  | none =>
    simp [bodyCode, bodyOperations, Expr.usesAll_append, Operation.usesAll_toExpr hinits,
      Operation.usesAll_toExpr hcalls, Expr.usesAll, hret]
  | some g =>
    simp [bodyCode, Graph.loopCode, Expr.usesAll_append, Operation.usesAll_toExpr hinits,
      Operation.usesAll_toExpr hcalls, Expr.usesAll, Expr.uses, Expr.branchOn, Expr.ofSlot,
      Slot.use, hret]

/-- The lowered function uses its slots as they are written: initial
values, calls, guard and result. Each part was lowered through the
layout, so the slot at every place is the one that the layout has for
the name written there. -/
theorem usesAsWritten_loweredFunction (h : LoweredParts functions f inits calls guard slot) :
    UsesAsWritten functions f (loweredFunction f inits calls guard slot) := by
  have hread : ∀ name s, f.layout.lookup? name = some s →
      (loweredFunction f inits calls guard slot).readBack s.use = f.written name :=
    fun name s => readBack_loweredFunction h.declares
  obtain ⟨hinits, hinitTypes⟩ := perform_inits hread h.inits
  obtain ⟨hcalls, hcallTypes⟩ := perform_calls hread h.calls
  have hguard := corresponds_guard hread h.guarded
  obtain ⟨output, houtput, hslot⟩ := Option.bind_eq_some_iff.mp h.output
  have hret : Perform f (loweredFunction f inits calls guard slot) [.ret slot]
      f.body.outputPlaces := by
    rw [Tree.Body.outputPlaces, houtput]
    refine .cons ?_ .nil
    simp [Corresponds, Operation.uses, hread _ _ hslot]
  refine ⟨⟨⟨bodyOperations inits calls slot, f.layout, slot, guard⟩,
    outcome_lowerBody_eq_ok.mpr ⟨inits, calls, h, rfl, rfl⟩,
    List.rel_append (List.rel_append hinits hcalls) hret⟩, ?_, fun graph hgraph => ?_,
    fun graph hgraph => ?_⟩
  · simp only [List.flatten_append]
    show Corresponds f _ (Expr.usesAll (bodyCode inits calls guard slot)) _
    rw [usesAll_bodyCode hinitTypes hcallTypes]
    exact (((hinits.flatten.append hguard).append hcalls.flatten).append hguard).append hret.flatten
  · obtain ⟨s, -, rfl⟩ := Option.map_eq_some_iff.mp hgraph
    exact .cons hinits (.cons .nil (.cons hcalls (.cons hret .nil)))
  · obtain ⟨s, hs, rfl⟩ := Option.map_eq_some_iff.mp hgraph
    rw [hs] at hguard
    rw [List.flatten_append]
    exact hguard.append hguard

end Functions

/-- Slots are laid out as the source declares its variables, and used
where it names them. For every function that is lowered, parameters take
the first slots, the variables the next, and the sentinel of a body
without a loop node the last, and all views of the layout agree; and the
operations, the code and the graph have, at each place where the source
names a variable, the slot of this variable and its type. -/
theorem lowerFunction_slots {functions : FunctionTable} {f : Tree.Function} {g : Function}
    (h : (lowerFunction functions f).outcome = .ok g) :
    LaidOut f g ∧ UsesAsWritten functions f g := by
  obtain ⟨inits, calls, guard, slot, hparts, rfl⟩ := outcome_lowerFunction_eq_ok.mp h
  exact ⟨laidOut_loweredFunction hparts.declares, usesAsWritten_loweredFunction hparts⟩

/-- The sentinel of `middle`, declared between two other variables,
takes the last slot. -/
theorem middle_slots :
    ∃ g, (lowerFunction .middle .middle).outcome = .ok g
      ∧ g.slotNames = ["n", "x", "y", sentinelName]
      ∧ LaidOut .middle g ∧ UsesAsWritten .middle .middle g := by
  obtain ⟨g, hg, hnames⟩ : ∃ g, (lowerFunction .middle .middle).outcome = .ok g
      ∧ g.slotNames = ["n", "x", "y", sentinelName] := ⟨_, rfl, rfl⟩
  exact ⟨g, hg, hnames, lowerFunction_slots hg⟩

end CallFlow
