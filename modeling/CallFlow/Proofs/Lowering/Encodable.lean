/-
Lowering gives modules that can be encoded.

The checks of lowering and the checks of a module look at the same things in
different forms: names and a table of signatures there, slot numbers and the
declared functions here. So the proof has two parts. The tables agree: a slot has
the type of the name that it was given to, and a callable name has the signature
that it was registered with. And each operation, checked against the one table,
is code that passes against the other, whatever the labels around it.

What lowering does not look at is left to the module: the bounds of the memory and
the external names.
-/
import CallFlow.Proofs.Code.Checks
import CallFlow.Proofs.Lowering.Programs

namespace CallFlow

-- ========================================================== signatures

/-- The parameters of an accepted function all count. -/
theorem Tree.Function.Declares.filter_params {f : Tree.Function} (h : f.Declares) :
    (f.params.map Tree.Param.type).filter ValueType.isStorable = f.params.map Tree.Param.type := by
  rw [List.filter_eq_self]
  intro t ht
  obtain ⟨p, hp, rfl⟩ := List.mem_map.mp ht
  exact ValueType.isStorable_eq_true.mpr (h.params p hp).2

section Modules

variable (memory : Memory) {p : Tree.Program} {gs : List Function}

/-- Functions keep their names, and their signatures are those that they
were registered with. -/
theorem map_signature {functions : FunctionTable} {fs : List Tree.Function}
    (h : List.Forall₂ (fun f g => (lowerFunction functions f).outcome = .ok g) fs gs) :
    gs.map (fun g => (g.name, g.params, g.result))
      = (fs.map Tree.Function.callable).map fun c => (c.1, c.2.params, c.2.result) := by
  induction h with
  | nil => rfl
  | @cons f g fs gs hg _ ih =>
    obtain ⟨inits, calls, guard, slot, hparts, rfl⟩ := outcome_lowerFunction_eq_ok.mp hg
    rw [List.map_cons, List.map_cons, List.map_cons, ih]
    congr 3
    exact hparts.declares.filter_params.symm

/-- The signatures of a module are those that were registered. -/
theorem signatures_loweredModule (h : LoweredProgram p gs) :
    (loweredModule memory p gs).signatures
      = p.callables.map fun c => (c.1, c.2.params, c.2.result) := by
  unfold Module.signatures loweredModule Tree.Program.callables
  rw [List.map_append, map_signature h.functions, List.map_append, List.map_append, List.map_map,
    List.map_map, List.map_map, ← List.append_assoc]
  rfl

/-- A call finds the signature that it was checked against. -/
theorem signature?_loweredModule (h : LoweredProgram p gs) {name : String} {s : Signature}
    (hs : ({ entries := p.callables } : FunctionTable).lookup? name = some s) :
    (loweredModule memory p gs).signature? name = some (s.params, s.result) := by
  have hmem : (name, s) ∈ p.callables := (lookup_eq_some_of_nodup h.registered.nodup).mp hs
  rw [Module.signature?_eq_lookup, signatures_loweredModule memory h, lookup_eq_some_of_nodup]
  · exact List.mem_map_of_mem hmem
  · rw [List.map_map]
    exact h.registered.nodup

/-- The callable names of a module are those that were registered. -/
theorem callables_loweredModule (h : LoweredProgram p gs) :
    (loweredModule memory p gs).callables = p.callables.map Prod.fst := by
  have hsig := congrArg (List.map Prod.fst) (signatures_loweredModule memory h)
  unfold Module.signatures at hsig
  rw [List.map_append, List.map_map, List.map_map, List.map_map] at hsig
  exact hsig

end Modules

-- ================================================================ code

theorem Value.type_toExpr (v : Value) : v.toExpr.type = v.type := by
  cases v <;> rfl

section Code

open CallFlow.Expr (check checkAll)

/-- A function of a module has the slots of a function of the program,
and the module has the signatures of a table. -/
structure Fits (functions : FunctionTable) (f : Tree.Function) (m : Module) (g : Function) :
    Prop where
  slots : ∀ name s, f.layout.lookup? name = some s → g.slotType? s.index = some s.type
  signatures : ∀ name s, functions.lookup? name = some s →
    m.signature? name = some (s.params, s.result)
  result : g.result = f.result

variable {functions : FunctionTable} {f : Tree.Function} {m : Module} {g : Function}
  {labels : List String}

/-- A lowered operand passes the checks of its function: it is a
constant or a slot that the layout has under that number and type. -/
theorem check_value (hfits : Fits functions f m g) {o : Tree.Operand} {v : Value}
    (h : Lowered f.layout o (some v)) : check m g labels v.toExpr = .ok () := by
  cases h with
  | reference kind bound => exact Expr.check_get.mpr (hfits.slots _ _ bound)
  | i32 kind fits => rfl
  | i64 kind wide => rfl
  | f64 kind => rfl

/-- The arguments of a lowered call pass, each being a lowered operand. -/
theorem checkAll_args (hfits : Fits functions f m g) {os : List Tree.Operand}
    {vs : List (Option Value)} (h : List.Forall₂ (Lowered f.layout) os vs) :
    checkAll m g labels ((argumentValues vs).map Value.toExpr) = .ok () := by
  induction h with
  | nil => rfl
  | @cons o v os vs ho _ ih =>
    cases v with
    | none => exact ih
    | some v => exact Expr.checkAll_cons.mpr ⟨check_value hfits ho, ih⟩

/-- Initial values pass: each is a constant of the type of the slot that
it goes to. -/
theorem checkAll_inits (hfits : Fits functions f m g) {vs : List Tree.Variable}
    {ops : List Operation} (h : LoweredInits f.layout vs ops) :
    checkAll m g labels (ops.map Operation.toExpr) = .ok () := by
  induction h with
  | nil => rfl
  | skip init _ ih => exact ih
  | @init v vs ops o slot value init bound operand type _ ih =>
    refine Expr.checkAll_cons.mpr ⟨Expr.check_set.mpr ⟨?_, check_value hfits operand⟩, ih⟩
    rw [hfits.slots _ _ bound, Value.type_toExpr, type]

/-- Lowered calls pass, as the signature that was looked up for them is
the one that the module has. -/
theorem checkAll_calls (hfits : Fits functions f m g) {cs : List Tree.Call}
    {ops : List Operation} (h : List.Forall₂ (LoweredCall functions f.layout) cs ops) :
    checkAll m g labels (ops.map Operation.toExpr) = .ok () := by
  induction h with
  | nil => rfl
  | cons hc _ ih =>
    obtain @⟨vs, target, signature, -, args, bound, -, callee, types, result⟩ := hc
    refine Expr.checkAll_cons.mpr ⟨Expr.check_set.mpr ⟨hfits.slots _ _ bound, ?_⟩, ih⟩
    refine Expr.check_call.mpr ⟨?_, checkAll_args hfits args⟩
    rw [hfits.signatures _ _ callee, ← types, result, List.map_map]
    congr 2
    exact List.map_congr_left fun v _ => v.type_toExpr.symm

/-- A branch on a guard passes wherever its label is in scope. -/
theorem check_branchOn (hfits : Fits functions f m g) {name : String} {s : Slot}
    (hs : f.layout.lookup? name = some s) (ht : s.type = .i32) {l : String} (hl : l ∈ labels)
    (test : BranchTest) : check m g labels (.branchOn l s test) = .ok () :=
  Expr.check_branchIf.mpr ⟨hl, Expr.check_get.mpr (hfits.slots _ _ hs), ht⟩

variable {inits calls : List Operation} {guard : Option Slot} {slot : Slot}

/-- The code of an accepted body passes. The cases are those of the
guard: without one the code is the operations in order, and with one
there is a block and a loop around the calls. -/
theorem checkAll_bodyCode (hfits : Fits functions f m g)
    (h : LoweredParts functions f inits calls guard slot) :
    checkAll m g [] (bodyCode inits calls guard slot) = .ok () := by
  obtain ⟨output, -, houtput⟩ := Option.bind_eq_some_iff.mp h.output
  have hret : ∀ ls, checkAll m g ls [(Operation.ret slot).toExpr] = .ok () := fun ls =>
    Expr.checkAll_cons.mpr ⟨Expr.check_returnValue.mpr
      ⟨Expr.check_get.mpr (hfits.slots _ _ houtput), h.result.trans hfits.result.symm⟩, rfl⟩
  cases hguard : f.body.guard? with
  | none =>
    have hslot := h.guarded.slot
    rw [hguard, Option.bind_none] at hslot
    subst hslot
    unfold bodyCode bodyOperations
    rw [List.map_append, List.map_append, Expr.checkAll_append, Expr.checkAll_append]
    exact ⟨⟨checkAll_inits hfits h.inits, checkAll_calls hfits h.calls⟩, hret []⟩
  | some name =>
    obtain ⟨s, hs, ht⟩ := h.guarded.type name hguard
    have hslot := h.guarded.slot
    rw [hguard, Option.bind_some, hs] at hslot
    subst hslot
    refine Expr.checkAll_cons.mpr ⟨?_, hret []⟩
    refine Expr.checkAll_append.mpr ⟨Expr.checkAll_append.mpr ⟨?_, ?_⟩, ?_⟩
    · exact checkAll_inits hfits h.inits
    · exact Expr.checkAll_cons.mpr ⟨check_branchOn hfits hs ht List.mem_cons_self _, rfl⟩
    · refine Expr.checkAll_cons.mpr ⟨Expr.checkAll_append.mpr ⟨?_, ?_⟩, rfl⟩
      · exact checkAll_calls hfits h.calls
      · exact Expr.checkAll_cons.mpr ⟨check_branchOn hfits hs ht List.mem_cons_self _, rfl⟩

/-- The slots of a lowered function are the declarations, in order. -/
theorem slotType?_loweredFunction (hf : f.Declares) {name : String} {s : Slot}
    (hs : f.layout.lookup? name = some s) :
    (loweredFunction f inits calls guard slot).slotType? s.index = some s.type := by
  obtain ⟨d, hd, -, hslot⟩ := (Tree.Function.lookup?_layout hf).mp hs
  have hslots : (loweredFunction f inits calls guard slot).params
      ++ (loweredFunction f inits calls guard slot).locals
        = f.declarations.map Declaration.type := by
    unfold loweredFunction Tree.Function.declarations
    rw [List.map_append, List.map_map]
    rfl
  unfold Function.slotType?
  rw [hslots, List.getElem?_map, hd, hslot]
  rfl

end Code

-- ========================================================== the module

section Validity

variable (memory : Memory) {p : Tree.Program} {gs : List Function}

/-- The code of a memory helper passes in every module. -/
theorem checkAll_builtin (m : Module) (b : Builtin) :
    Expr.checkAll m b.toFunction [] b.toFunction.body = .ok () := by
  cases b <;> rfl

/-- The bodies of a lowered program pass. -/
theorem checkBodies_loweredModule (h : LoweredProgram p gs) :
    (loweredModule memory p gs).checkBodies (loweredModule memory p gs).functions = .ok () := by
  rw [Module.checkBodies_eq_ok]
  intro g hg
  rcases List.mem_append.mp hg with hbuiltin | huser
  · obtain ⟨b, -, rfl⟩ := List.mem_map.mp hbuiltin
    exact checkAll_builtin _ b
  · obtain ⟨f, hf, hlowered⟩ := exists_left_of_forall₂ h.functions huser
    obtain ⟨inits, calls, guard, slot, hparts, rfl⟩ := outcome_lowerFunction_eq_ok.mp hlowered
    refine checkAll_bodyCode ?_ hparts
    exact ⟨fun _ _ hs => slotType?_loweredFunction hparts.declares hs,
      fun _ _ hs => signature?_loweredModule memory h hs, rfl⟩

/-- The names of a lowered module do not clash, because those of the
program did not when they were registered. -/
theorem checkNames_loweredModule (h : LoweredProgram p gs) :
    (loweredModule memory p gs).checkNames = .ok () := by
  rw [Module.checkNames_eq_ok, callables_loweredModule memory h]
  exact h.registered.nodup

/-- The exports of a lowered program name what is there, so only their
external names can be at fault. -/
theorem checkExports_loweredModule (h : LoweredProgram p gs) :
    Module.checkExports (loweredModule memory p gs).callables [memory.exportName]
        (loweredModule memory p gs).exports = .ok () ↔
      (p.exports.map Tree.Export.name).Nodup ∧ ∀ e ∈ p.exports, e.name ≠ memory.exportName := by
  rw [Module.checkExports_eq_ok, callables_loweredModule memory h, Module.repeated?_eq_none]
  have hfunctions : ∀ e ∈ (loweredModule memory p gs).exports,
      e.function ∈ p.callables.map Prod.fst := by
    intro e he
    obtain ⟨e', he', rfl⟩ := List.mem_map.mp he
    exact (h.exports e' he').2
  have hnames : (loweredModule memory p gs).exports.map Export.name
      = p.exports.map Tree.Export.name := List.map_map
  rw [hnames, List.forall_mem_map]
  simp only [List.mem_singleton]
  exact ⟨fun h' => h'.2, fun h' => ⟨hfunctions, h'⟩⟩

/-- A lowered program can be encoded exactly when the memory is in
bounds and the external names are distinct, that of the memory among
them. Its bodies and its callable names are never at fault. -/
theorem lower_validate_iff {memory : Memory} {m : Module} (h : (lower memory p).outcome = .ok m) :
    (m.validate = .ok () ↔
        memory.maximumPages ≤ 65536 ∧ memory.initialPages ≤ memory.maximumPages
          ∧ (p.exports.map Tree.Export.name).Nodup ∧ ∀ e ∈ p.exports, e.name ≠ memory.exportName)
      ∧ m.checkNames = .ok () ∧ m.checkBodies m.functions = .ok () := by
  obtain ⟨gs, hprogram, rfl⟩ := outcome_lowerProgram_eq_ok.mp h
  have hnames := checkNames_loweredModule memory hprogram
  have hbodies := checkBodies_loweredModule memory hprogram
  refine ⟨?_, hnames, hbodies⟩
  rw [Module.validate_eq_ok, Module.checkMemory_eq_ok]
  constructor
  · intro hvalid
    obtain ⟨-, hmemory, hexports, -⟩ := hvalid
    exact ⟨hmemory.1, hmemory.2, (checkExports_loweredModule memory hprogram).mp hexports⟩
  · intro hbounds
    obtain ⟨hmaximum, hinitial, hexports⟩ := hbounds
    exact ⟨hnames, ⟨hmaximum, hinitial⟩, (checkExports_loweredModule memory hprogram).mpr hexports,
      hbodies⟩

end Validity

/-- A program that imports a function, calls it once and exports the
caller. -/
def Tree.Program.relay : Tree.Program where
  imports := [{ id := { name := "step" }, module := "env", base := "step"
                params := [.i32], result := .i32 }]
  functions := [{ id := { name := "relay" }
                  params := [{ id := { name := "n" }, type := .i32 }]
                  result := .i32
                  body := { vars := [{ id := { name := "k" }, type := .i32 }]
                            calls := [{ target := { name := "k" }, callee := { name := "step" }
                                        args := [.reference "n"] }] } }]
  exports := [{ id := { name := "relay" }, name := "relay" }]

/-- With the default memory `relay` is lowered and can be encoded. -/
theorem relay_encodable :
    ∃ m, (lower {} .relay).outcome = .ok m ∧ m.validate = .ok () := by
  obtain ⟨m, hm⟩ : ∃ m, (lower {} .relay).outcome = .ok m := ⟨_, rfl⟩
  exact ⟨m, hm, (lower_validate_iff hm).1.mpr (by decide)⟩

end CallFlow
