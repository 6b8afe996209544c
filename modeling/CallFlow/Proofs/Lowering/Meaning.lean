/-
Lowering preserves meaning: a function as it is written and the function that it
is lowered to have the same behaviour, whatever the arguments and whatever the
calls do.

# The invariant

`Holds` ties the variables of the one to the slots of the other: every declared
name has a value, its slot holds the same value, and the value has the declared
type. The types are what keeps a run from getting stuck: a guard is always an
`i32`, and every slot that is read is there.

# The argument

`Simulates` says that a step on variables and a step on slots keep the invariant,
act on the world alike, and both end or both use up the bound. Steps compose
(`Simulates.bind`), so each statement is one lemma. Only the loop is not a
composition: the test in front of a round became a test in front of the first
round and one behind each, and a round that goes on is a branch that is caught.
Both count rounds, so the two loops use up the same bound
(`simulates_againOnBranch`).
-/
import CallFlow.Proofs.Lowering.LoopCode

namespace CallFlow

variable {σ : Type}

-- ======================================================== the invariant

/-- The slots of a function hold the values of its variables. -/
def Holds (f : Tree.Function) (env : Tree.Env) (slots : List Constant) : Prop :=
  ∀ name s, f.layout.lookup? name = some s →
    ∃ c, env name = some c ∧ slots[s.index]? = some c ∧ c.type = s.type

/-- Two steps came to the same: a value each, or a bound that is used
up. -/
inductive Agree (f : Tree.Function) {α β : Type} (V : α → β → Prop) :
    Except Exit α × State Tree.Env σ → Except Exit β × State (List Constant) σ → Prop
  | ok {a : α} {b : β} {env : Tree.Env} {slots : List Constant} {w : World σ} (value : V a b)
      (holds : Holds f env slots) : Agree f V (.ok a, ⟨env, w⟩) (.ok b, ⟨slots, w⟩)
  | outOfFuel {env : Tree.Env} {slots : List Constant} {w : World σ} :
      Agree f V (.error .outOfFuel, ⟨env, w⟩) (.error .outOfFuel, ⟨slots, w⟩)

/-- What two steps that agree came to. -/
theorem Agree.elim {f : Tree.Function} {α β : Type} {V : α → β → Prop}
    {r₁ : Except Exit α × State Tree.Env σ} {r₂ : Except Exit β × State (List Constant) σ}
    (h : Agree f V r₁ r₂) :
    (∃ a b env slots w, V a b ∧ Holds f env slots
        ∧ r₁ = (.ok a, ⟨env, w⟩) ∧ r₂ = (.ok b, ⟨slots, w⟩))
      ∨ ∃ env slots w, r₁ = (.error .outOfFuel, ⟨env, w⟩)
        ∧ r₂ = (.error .outOfFuel, ⟨slots, w⟩) := by
  cases h with
  | ok value holds => exact .inl ⟨_, _, _, _, _, value, holds, rfl, rfl⟩
  | outOfFuel => exact .inr ⟨_, _, _, rfl, rfl⟩

/-- A step on the variables of a function and a step on its slots do the
same, and their values are related. -/
def Simulates (f : Tree.Function) {α β : Type} (V : α → β → Prop) (x : Eval Tree.Env σ α)
    (y : Eval (List Constant) σ β) : Prop :=
  ∀ env slots w, Holds f env slots → Agree f V (x ⟨env, w⟩) (y ⟨slots, w⟩)

variable {f : Tree.Function}

namespace Simulates

variable {α β γ δ : Type} {V : α → β → Prop} {W : γ → δ → Prop}

/-- Values that are related simulate each other and leave both states as
they are. -/
theorem pure {a : α} {b : β} (h : V a b) :
    Simulates f V (Pure.pure a : Eval Tree.Env σ α) (Pure.pure b) :=
  fun _ _ _ holds => .ok h holds

/-- Simulations in turn: the second starts from states and values that
the first has related. -/
theorem bind {x : Eval Tree.Env σ α} {y : Eval (List Constant) σ β} {k : α → Eval Tree.Env σ γ}
    {l : β → Eval (List Constant) σ δ} (h : Simulates f V x y)
    (hk : ∀ a b, V a b → Simulates f W (k a) (l b)) : Simulates f W (x >>= k) (y >>= l) := by
  intro env slots w holds
  rcases (h env slots w holds).elim with
    ⟨a, b, env', slots', w', value, holds', hx, hy⟩ | ⟨env', slots', w', hx, hy⟩
  · rw [Eval.bind_apply_ok hx, Eval.bind_apply_ok hy]
    exact hk a b value env' slots' w' holds'
  · rw [Eval.bind_apply_error hx, Eval.bind_apply_error hy]
    exact .outOfFuel

/-- A value may be changed on the side of the variables alone. -/
theorem mapLeft {W : γ → β → Prop} {x : Eval Tree.Env σ α} {y : Eval (List Constant) σ β}
    {g : α → γ} (h : Simulates f V x y) (hg : ∀ a b, V a b → W (g a) b) :
    Simulates f W (x >>= fun a => Pure.pure (g a)) y := by
  rw [← bind_pure y]
  exact h.bind fun a b hab => .pure (hg a b hab)

/-- A value may be changed on the side of the slots alone. -/
theorem mapRight {W : α → δ → Prop} {x : Eval Tree.Env σ α} {y : Eval (List Constant) σ β}
    {g : β → δ} (h : Simulates f V x y) (hg : ∀ a b, V a b → W a (g b)) :
    Simulates f W x (y >>= fun b => Pure.pure (g b)) := by
  rw [← bind_pure x]
  exact h.bind fun a b hab => .pure (hg a b hab)

end Simulates

-- ============================================== variables and their slots

/-- Different names have different slots. -/
theorem index_inj (hf : f.Declares) {name name' : String} {s s' : Slot}
    (hs : f.layout.lookup? name = some s) (hs' : f.layout.lookup? name' = some s')
    (hi : s.index = s'.index) : name = name' := by
  obtain ⟨d, hd, rfl, -⟩ := (Tree.Function.lookup?_layout hf).mp hs
  obtain ⟨d', hd', rfl, -⟩ := (Tree.Function.lookup?_layout hf).mp hs'
  rw [hi, hd'] at hd
  cases hd
  rfl

/-- Reading a variable is reading its slot. -/
theorem simulates_readVariable {name : String} {s : Slot}
    (hs : f.layout.lookup? name = some s) :
    Simulates f (fun a b => a = b ∧ b.type = s.type) (Tree.readVariable name : Eval _ σ _)
      (readSlot s.index) := by
  intro env slots w holds
  obtain ⟨c, henv, hslot, htype⟩ := holds name s hs
  simp only [Tree.readVariable, readSlot, henv, hslot]
  exact .ok ⟨rfl, htype⟩ holds

/-- Assigning to a variable is assigning to its slot, and leaves every
other variable as it was. Different names have different slots, which is
what makes the other variables safe. -/
theorem simulates_writeVariable (hf : f.Declares) {name : String} {s : Slot} {c : Constant}
    (hs : f.layout.lookup? name = some s) (hc : c.type = s.type) :
    Simulates f (fun _ _ => True) (Tree.writeVariable name c : Eval _ σ _)
      (writeSlot s.index c) := by
  intro env slots w holds
  obtain ⟨old, henv, hslot, -⟩ := holds name s hs
  have hlt : s.index < slots.length := (List.getElem?_eq_some_iff.mp hslot).1
  simp only [Tree.writeVariable, writeSlot, henv, if_pos hlt]
  refine .ok trivial fun name' s' hs' => ?_
  by_cases hname : name' = name
  · subst hname
    rw [hs] at hs'
    cases hs'
    refine ⟨c, if_pos rfl, ?_, hc⟩
    rw [List.getElem?_set_self hlt]
  · obtain ⟨c', henv', hslot', htype'⟩ := holds name' s' hs'
    refine ⟨c', ?_, ?_, htype'⟩
    · unfold Tree.Env.assign
      rw [if_neg hname, henv']
    · have hi : s.index ≠ s'.index := fun hi => hname (index_inj hf hs' hs hi.symm)
      rw [List.getElem?_set_ne hi, hslot']

-- ========================================================== statements

section Statements

variable (oracle : Oracle σ) (fuel : Nat)

/-- An operand and the expression that it becomes have the same value,
of the type that the operand was checked for. Constants are narrowed
where their type asks for it, and were checked to fit. -/
theorem simulates_operand {o : Tree.Operand} {v : Value} (h : Lowered f.layout o (some v)) :
    Simulates f (fun a b => ∃ c, a = some c ∧ b = some c ∧ c.type = v.type) (o.eval : Eval _ σ _)
      (v.toExpr.eval oracle fuel) := by
  cases h with
  | reference kind bound =>
    simp only [Tree.Operand.eval, kind, Value.toExpr, Expr.ofSlot, Expr.eval]
    refine (simulates_readVariable bound).bind ?_
    rintro c _ ⟨rfl, htype⟩
    exact .pure ⟨c, rfl, rfl, htype⟩
  | i32 kind fits =>
    obtain ⟨hfits, rfl⟩ := narrow?_eq_some.mp fits
    simp only [Tree.Operand.eval, kind, Value.toExpr, Expr.eval]
    rw [if_pos hfits]
    exact .pure ⟨_, rfl, rfl, rfl⟩
  | @i64 t n kind wide =>
    have heval : (o.eval : Eval Tree.Env σ _) = pure (some (.i64 n)) := by
      unfold Tree.Operand.eval
      rw [kind]
      cases t with
      | i32 => exact absurd rfl wide
      | _ => rfl
    rw [heval]
    exact .pure ⟨_, rfl, rfl, rfl⟩
  | f64 kind =>
    simp only [Tree.Operand.eval, kind, Value.toExpr, Expr.eval]
    exact .pure ⟨_, rfl, rfl, rfl⟩

/-- An operand that becomes no expression has no value. -/
theorem eval_void {o : Tree.Operand} (h : Lowered f.layout o none) :
    (o.eval : Eval Tree.Env σ _) = pure none := by
  cases h with
  | void kind => simp only [Tree.Operand.eval, kind]

/-- Arguments have the same values, in the same order. -/
theorem simulates_args {os : List Tree.Operand} {vs : List (Option Value)}
    (h : List.Forall₂ (Lowered f.layout) os vs) :
    Simulates f (· = ·) (Tree.evalOperands os : Eval _ σ _)
      (Expr.evalArgs oracle fuel ((argumentValues vs).map Value.toExpr)) := by
  induction h with
  | nil => exact .pure rfl
  | @cons o v os vs ho _ ih =>
    cases v with
    | none =>
      simp only [Tree.evalOperands, eval_void ho]
      exact ih.mapLeft fun a b hab => hab
    | some v =>
      refine (simulates_operand oracle fuel ho).bind ?_
      rintro _ _ ⟨c, rfl, rfl, -⟩
      simp only [Eval.need_some, pure_bind]
      refine ih.bind ?_
      rintro cs _ rfl
      exact .pure rfl

/-- Initializers give the same variables the same values. -/
theorem simulates_inits (hf : f.Declares) {vs : List Tree.Variable} {ops : List Operation}
    (h : LoweredInits f.layout vs ops) :
    Simulates f (fun _ _ => True) (Tree.initializeAll vs : Eval _ σ _)
      (Expr.evalAll oracle fuel (ops.map Operation.toExpr)) := by
  induction h with
  | nil => exact .pure trivial
  | skip init _ ih =>
    simp only [Tree.initializeAll, Tree.Variable.initialize, init, pure_bind]
    exact ih
  | init init bound operand type _ ih =>
    simp only [Tree.initializeAll, Tree.Variable.initialize, init]
    refine Simulates.bind ?_ fun _ _ (_ : True) => ih
    refine (simulates_operand oracle fuel operand).bind ?_
    rintro _ _ ⟨c, rfl, rfl, hc⟩
    exact (simulates_writeVariable hf bound (hc.trans type)).mapRight fun _ _ h => h

/-- A call is performed alike, and its answer has the type that it asks
for. -/
theorem simulates_invoke (function : String) (args : List Constant) (result : ValueType) :
    Simulates f (fun a b => a = b ∧ valueType b = result)
      (.invoke oracle function args result) (.invoke oracle function args result) :=
  fun _ _ w holds => .ok ⟨rfl, oracle.valueType_call function args result w⟩ holds

/-- A call gives the same arguments to the same function, and its answer
to the same variable. -/
theorem simulates_call (hf : f.Declares) {functions : FunctionTable} {c : Tree.Call}
    {op : Operation} (h : LoweredCall functions f.layout c op) :
    Simulates f (fun _ _ => True) (c.exec functions oracle) (op.toExpr.eval oracle fuel) := by
  obtain @⟨vs, target, signature, -, args, bound, -, callee, -, result⟩ := h
  simp only [Tree.Call.exec, callee, result, Operation.toExpr, Expr.eval, Eval.need_some,
    pure_bind, bind_assoc]
  refine (simulates_args oracle fuel args).bind ?_
  rintro cs _ rfl
  refine (simulates_invoke oracle c.callee.name cs target.type).bind ?_
  rintro answer _ ⟨rfl, htype⟩
  obtain ⟨value, rfl⟩ := exists_of_valueType_ne_void (htype ▸ hf.type_ne_void bound)
  exact (simulates_writeVariable hf bound htype).mapRight fun _ _ h => h

/-- Calls are performed in the same order. -/
theorem simulates_calls (hf : f.Declares) {functions : FunctionTable} {cs : List Tree.Call}
    {ops : List Operation} (h : List.Forall₂ (LoweredCall functions f.layout) cs ops) :
    Simulates f (fun _ _ => True) (Tree.execAll functions oracle cs)
      (Expr.evalAll oracle fuel (ops.map Operation.toExpr)) := by
  induction h with
  | nil => exact .pure trivial
  | cons hc _ ih => exact (simulates_call oracle fuel hf hc).bind fun _ _ _ => ih

end Statements

-- ============================================================ the loop

section Loop

variable {name : String} {s : Slot} {v : Int32}

/-- A guard has the same value on both sides. -/
theorem Holds.guard {env : Tree.Env} {slots : List Constant} (holds : Holds f env slots)
    (hs : f.layout.lookup? name = some s) (ht : s.type = .i32) :
    ∃ v, env name = some (.i32 v) ∧ slots[s.index]? = some (.i32 v) := by
  obtain ⟨c, henv, hslot, htype⟩ := holds name s hs
  obtain ⟨v, rfl⟩ := Constant.eq_i32_of_type (htype.trans ht)
  exact ⟨v, henv, hslot⟩

/-- A name that holds an integer is tested on that integer, without a
change. -/
theorem isNonzero_apply {st : State Tree.Env σ} (h : st.store name = some (.i32 v)) :
    Tree.isNonzero name st = (.ok (v != 0), st) := by
  have hread : Tree.readVariable name st = (.ok (.i32 v), st) := by
    simp only [Tree.readVariable, h]
  unfold Tree.isNonzero
  rw [Eval.bind_apply_ok hread]
  rfl

/-- A loop whose guard is zero does nothing. -/
theorem whileNonzero_of_eq_zero {st : State Tree.Env σ} {x : Eval Tree.Env σ Unit} (rounds : Nat)
    (h : st.store name = some (.i32 0)) : Tree.whileNonzero name x rounds st = (.ok (), st) := by
  cases rounds with
  | zero => exact Eval.bind_apply_ok (isNonzero_apply h)
  | succ rounds => exact Eval.bind_apply_ok (isNonzero_apply h)

/-- A loop whose guard is not zero, and that has no round left, uses up
its bound. -/
theorem whileNonzero_zero {st : State Tree.Env σ} {x : Eval Tree.Env σ Unit}
    (h : st.store name = some (.i32 v)) (hv : v ≠ 0) :
    Tree.whileNonzero name x 0 st = (.error .outOfFuel, st) := by
  refine (Eval.bind_apply_ok (isNonzero_apply h)).trans ?_
  rw [if_pos (bne_iff_ne.mpr hv)]
  rfl

/-- A loop whose guard is not zero takes a round and goes on. -/
theorem whileNonzero_succ {st : State Tree.Env σ} {x : Eval Tree.Env σ Unit} (rounds : Nat)
    (h : st.store name = some (.i32 v)) (hv : v ≠ 0) :
    Tree.whileNonzero name x (rounds + 1) st
      = (x >>= fun _ => Tree.whileNonzero name x rounds) st := by
  refine (Eval.bind_apply_ok (isNonzero_apply h)).trans ?_
  rw [if_pos (bne_iff_ne.mpr hv)]

/-- A branch on a slot that holds an integer is taken if the integer
passes its test. -/
theorem evalAll_branchOn (oracle : Oracle σ) (fuel : Nat) (l : String) (test : BranchTest)
    {t : State (List Constant) σ} (h : t.store[s.index]? = some (.i32 v)) :
    Expr.evalAll oracle fuel [.branchOn l s test] t
      = if test.passes v then (.error (.branch l), t) else (.ok (), t) := by
  have hread : readSlot s.index t = (.ok (.i32 v), t) := by
    simp only [readSlot, h]
  simp only [Expr.evalAll, Expr.branchOn, Expr.ofSlot, Expr.eval, bind_assoc]
  rw [Eval.bind_apply_ok hread]
  simp only [pure_bind, Eval.needI32_some]
  split <;> rfl

/-- From a guard that is not zero on, the loop that tests before a round
and the loop that branches behind it go alike. The induction is over the
rounds. The test that one loop makes before a round, the other has made
behind the round before. -/
theorem agree_againOnBranch {x : Eval Tree.Env σ Unit} {y : Eval (List Constant) σ Unit}
    (oracle : Oracle σ) (fuel : Nat) (l : String) (hxy : Simulates f (fun _ _ => True) x y)
    (hs : f.layout.lookup? name = some s) (ht : s.type = .i32) (rounds : Nat) {env : Tree.Env}
    {slots : List Constant} {w : World σ} (holds : Holds f env slots)
    (henv : env name = some (.i32 v)) (hv : v ≠ 0) :
    Agree f (fun _ _ => True) (Tree.whileNonzero name x rounds ⟨env, w⟩)
      (Eval.againOnBranch l
        (y >>= fun _ => Expr.evalAll oracle fuel [.branchOn l s .nonzero]) rounds ⟨slots, w⟩) := by
  induction rounds generalizing env slots w v with
  | zero =>
    rw [whileNonzero_zero henv hv]
    exact .outOfFuel
  | succ rounds ih =>
    rw [whileNonzero_succ rounds henv hv]
    rcases (hxy env slots w holds).elim with
      ⟨_, _, env', slots', w', -, holds', hx, hy⟩ | ⟨env', slots', w', hx, hy⟩
    · obtain ⟨v', henv', hslot'⟩ := holds'.guard hs ht
      have htest := evalAll_branchOn oracle fuel l .nonzero (t := ⟨slots', w'⟩) hslot'
      rw [Eval.bind_apply_ok hx]
      by_cases hv' : v' = 0
      · subst hv'
        rw [if_neg (fun h => BranchTest.passes_nonzero.mp h rfl)] at htest
        rw [whileNonzero_of_eq_zero rounds henv',
          Eval.againOnBranch_of_ne ((Eval.bind_apply_ok hy).trans htest) (by nofun)]
        exact .ok trivial holds'
      · rw [if_pos (BranchTest.passes_nonzero.mpr hv')] at htest
        rw [Eval.againOnBranch_of_branch ((Eval.bind_apply_ok hy).trans htest)]
        exact ih holds' henv' hv'
    · rw [Eval.bind_apply_error hx, Eval.againOnBranch_of_ne (Eval.bind_apply_error hy) (by nofun)]
      exact .outOfFuel

/-- Initializers and a guarded loop are a block with a test behind the
initializers that leaves it, and a loop. The test in front of the loop
is what makes the two shapes agree when there is no round at all. -/
theorem simulates_loopCode {x x' : Eval Tree.Env σ Unit} {inits calls : List Expr}
    (oracle : Oracle σ) (fuel : Nat)
    (hinits : Simulates f (fun _ _ => True) x (Expr.evalAll oracle fuel inits))
    (hcalls : Simulates f (fun _ _ => True) x' (Expr.evalAll oracle fuel calls))
    (hs : f.layout.lookup? name = some s) (ht : s.type = .i32) (exit again : String) :
    Simulates f (fun _ _ => True) (x >>= fun _ => Tree.whileNonzero name x' fuel)
      (.untilBranch exit (Expr.evalAll oracle fuel
        (inits ++ [.branchOn exit s .zero]
          ++ [.loop again (calls ++ [.branchOn again s .nonzero])]))) := by
  intro env slots w holds
  rw [Expr.evalAll_append, Expr.evalAll_append, bind_assoc]
  rcases (hinits env slots w holds).elim with
    ⟨_, _, env', slots', w', -, holds', hx, hy⟩ | ⟨env', slots', w', hx, hy⟩
  · obtain ⟨v, henv', hslot'⟩ := holds'.guard hs ht
    have htest := evalAll_branchOn oracle fuel exit .zero (t := ⟨slots', w'⟩) hslot'
    rw [Eval.bind_apply_ok hx]
    by_cases hv : v = 0
    · subst hv
      rw [if_pos (BranchTest.passes_zero.mpr rfl)] at htest
      rw [whileNonzero_of_eq_zero fuel henv', Eval.untilBranch_of_branch
        ((Eval.bind_apply_ok hy).trans (Eval.bind_apply_error htest))]
      exact .ok trivial holds'
    · rw [if_neg (fun h => hv (BranchTest.passes_zero.mp h))] at htest
      have hloop := agree_againOnBranch oracle fuel again hcalls hs ht fuel (w := w') holds'
        henv' hv
      rw [← Expr.evalAll_append, ← Expr.evalAll_loop] at hloop
      rcases hloop.elim with
        ⟨_, _, env'', slots'', w'', -, holds'', hwhile, hloop⟩ |
        ⟨env'', slots'', w'', hwhile, hloop⟩
      · rw [hwhile, Eval.untilBranch_of_ne ((Eval.bind_apply_ok hy).trans
          ((Eval.bind_apply_ok htest).trans hloop)) (by nofun)]
        exact .ok trivial holds''
      · rw [hwhile, Eval.untilBranch_of_ne ((Eval.bind_apply_ok hy).trans
          ((Eval.bind_apply_ok htest).trans hloop)) (by nofun)]
        exact .outOfFuel
  · rw [Eval.bind_apply_error hx, Eval.untilBranch_of_ne (Eval.bind_apply_error hy) (by nofun)]
    exact .outOfFuel

end Loop

-- =========================================================== functions

/-- The start binds each declared name once, so that any binding is the
one found. -/
theorem initialEnv_of_mem (hf : f.Declares) {args : List Constant}
    (hlength : args.length = f.params.length) {name : String} {c : Constant}
    (h : (name, c) ∈ (f.params.map fun p => p.id.name).zip args
      ++ f.body.vars.map fun v => (v.id.name, v.type.zero)) : f.initialEnv args name = some c := by
  have hnames : ((f.params.map fun p => p.id.name).zip args
      ++ f.body.vars.map fun v => (v.id.name, v.type.zero)).map Prod.fst = f.declaredNames := by
    rw [List.map_append, List.map_map,
      List.map_fst_zip (Nat.le_of_eq (by rw [List.length_map, hlength]))]
    rfl
  exact (lookup_eq_some_of_nodup (hnames ▸ hf.nodup)).mpr h

/-- At the start the slots hold the arguments and zeros, and so do the
variables. Variables without an initial value start at zero of their
type, as slots do. -/
theorem holds_initial (hf : f.Declares) {args : List Constant}
    (hargs : args.map Constant.type = f.params.map Tree.Param.type) :
    Holds f (f.initialEnv args)
      (args ++ (f.variableDeclarations.map Declaration.type).map ValueType.zero) := by
  have hlength : args.length = f.params.length := by
    simpa only [List.length_map] using congrArg List.length hargs
  intro name s hs
  obtain ⟨d, hd, rfl, hslot⟩ := (Tree.Function.lookup?_layout hf).mp hs
  have htype : s.type = d.type := by rw [hslot]; rfl
  unfold Tree.Function.declarations at hd
  by_cases hi : s.index < f.params.length
  · -- a parameter
    rw [List.getElem?_append_left (by rwa [List.length_map]), List.getElem?_map,
      Option.map_eq_some_iff] at hd
    obtain ⟨p, hp, rfl⟩ := hd
    have harg : args[s.index]? = some args[s.index] := List.getElem?_eq_getElem (hlength ▸ hi)
    refine ⟨args[s.index], initialEnv_of_mem hf hlength (List.mem_append_left _ ?_), ?_, ?_⟩
    · refine List.mem_of_getElem? (i := s.index) ?_
      rw [List.getElem?_zip_eq_some, List.getElem?_map, hp]
      exact ⟨rfl, harg⟩
    · rw [List.getElem?_append_left (hlength ▸ hi), harg]
    · have h := congrArg (·[s.index]?) hargs
      simp only [List.getElem?_map, hp, harg, Option.map_some, Option.some_inj] at h
      exact h.trans htype.symm
  · -- a variable
    rw [List.getElem?_append_right (by rw [List.length_map]; omega), List.length_map] at hd
    have hmem : (d.name, d.type) ∈ f.body.vars.map fun v => (v.id.name, v.type) :=
      f.variableDeclarations_perm.mem_iff.mp (List.mem_map_of_mem (List.mem_of_getElem? hd))
    obtain ⟨v, hv, hpair⟩ := List.mem_map.mp hmem
    refine ⟨d.type.zero, initialEnv_of_mem hf hlength (List.mem_append_right _ ?_), ?_, ?_⟩
    · rw [List.mem_map]
      exact ⟨v, hv, by rw [← (Prod.mk.inj hpair).1, ← (Prod.mk.inj hpair).2]⟩
    · rw [List.getElem?_append_right (by omega), hlength, List.getElem?_map, List.getElem?_map, hd]
      rfl
    · rw [ValueType.type_zero (htype ▸ hf.type_ne_void hs), htype]

section Body

variable {functions : FunctionTable} {inits calls : List Operation} {guard : Option Slot}
  {slot : Slot}

/-- All of a body but its return does what the initializers and the
calls do. -/
theorem simulates_body (oracle : Oracle σ) (fuel : Nat)
    (h : LoweredParts functions f inits calls guard slot) :
    ∃ code, bodyCode inits calls guard slot = code ++ [(Operation.ret slot).toExpr]
      ∧ Simulates f (fun _ _ => True)
        (Tree.initializeAll f.body.vars >>= fun _ => f.body.execCalls functions oracle fuel)
        (Expr.evalAll oracle fuel code) := by
  have hinits := simulates_inits oracle fuel h.declares h.inits
  have hcalls := simulates_calls oracle fuel h.declares h.calls
  have hslot := h.guarded.slot
  unfold Tree.Body.execCalls
  cases hguard : f.body.guard? with
  | none =>
    rw [hguard, Option.bind_none] at hslot
    subst hslot
    refine ⟨inits.map Operation.toExpr ++ calls.map Operation.toExpr, ?_, ?_⟩
    · simp only [bodyCode, bodyOperations, List.map_append, List.map_cons, List.map_nil]
    · rw [Expr.evalAll_append]
      exact hinits.bind fun _ _ _ => hcalls
  | some name =>
    obtain ⟨s, hs, ht⟩ := h.guarded.type name hguard
    rw [hguard, Option.bind_some, hs] at hslot
    subst hslot
    refine ⟨[_], rfl, ?_⟩
    rw [Expr.evalAll_block]
    exact simulates_loopCode oracle fuel hinits hcalls hs ht _ _

/-- A function and what it is lowered to report the same for every
bound: a value of the declared type, or that the bound is used up. Both
sides are put together from the simulation of the body and the reading
of the result. -/
theorem run_eq_run_loweredFunction (oracle : Oracle σ)
    (h : LoweredParts functions f inits calls guard slot) {args : List Constant}
    (hargs : args.map Constant.type = f.params.map Tree.Param.type) (w : World σ) (fuel : Nat) :
    f.run functions oracle args w fuel
        = (loweredFunction f inits calls guard slot).run oracle args w fuel
      ∧ ((f.run functions oracle args w fuel).ending = .outOfFuel
        ∨ ∃ c, (f.run functions oracle args w fuel).ending = .finished (some c)
          ∧ c.type = f.result) := by
  obtain ⟨code, hcode, hbody⟩ := simulates_body oracle fuel h
  obtain ⟨name, hname, hslot⟩ := Option.bind_eq_some_iff.mp h.output
  unfold Tree.Function.run Function.run Function.runFrom Tree.Function.exec
  simp only [loweredFunction, hcode, hname, Eval.need_some, pure_bind, Expr.evalAll_append]
  rw [← bind_assoc]
  rcases (hbody _ _ w (holds_initial h.declares hargs)).elim with
    ⟨_, _, env', slots', w', -, holds', hx, hy⟩ | ⟨env', slots', w', hx, hy⟩
  · obtain ⟨c, henv, hget, htype⟩ := holds' name slot hslot
    have hread : Tree.readVariable name ⟨env', w'⟩ = (.ok c, ⟨env', w'⟩) := by
      simp only [Tree.readVariable, henv]
    have hreturn : Expr.evalAll oracle fuel [(Operation.ret slot).toExpr] ⟨slots', w'⟩
        = (.error (.returned (some c)), ⟨slots', w'⟩) := by
      have hget' : readSlot slot.index ⟨slots', w'⟩ = (.ok c, ⟨slots', w'⟩) := by
        simp only [readSlot, hget]
      simp only [Operation.toExpr, Expr.ofSlot, Expr.evalAll, Expr.eval, bind_assoc]
      rw [Eval.bind_apply_ok hget']
      rfl
    rw [Eval.bind_apply_ok hx, Eval.bind_apply_ok hy, hread, hreturn]
    exact ⟨rfl, .inr ⟨c, rfl, htype.trans h.result⟩⟩
  · rw [Eval.bind_apply_error hx, Eval.bind_apply_error hy]
    exact ⟨rfl, .inl rfl⟩

end Body

/-- Lowering preserves meaning. A function that is accepted and the
function that it is lowered to end alike, with the same calls on the
same arguments and the same result; they go on forever alike, with the
same endless calls; and neither ever gets stuck, nor ends without a
value of the declared type. -/
theorem lowerFunction_preserves_behaviour {functions : FunctionTable} {f : Tree.Function}
    {g : Function} (h : (lowerFunction functions f).outcome = .ok g) (oracle : Oracle σ)
    {args : List Constant} (hargs : args.map Constant.type = f.params.map Tree.Param.type)
    (w : World σ) :
    Runs.SameBehaviour (f.run functions oracle args w) (g.run oracle args w)
      ∧ ∀ fuel, (g.run oracle args w fuel).ending = .outOfFuel
        ∨ ∃ c, (g.run oracle args w fuel).ending = .finished (some c) ∧ c.type = f.result := by
  obtain ⟨inits, calls, guard, slot, hparts, rfl⟩ := outcome_lowerFunction_eq_ok.mp h
  have hrun := run_eq_run_loweredFunction oracle hparts hargs w
  refine ⟨.of_eq fun fuel => (hrun fuel).1, fun fuel => ?_⟩
  rw [← (hrun fuel).1]
  exact (hrun fuel).2

/-- A function that steps its argument down in a loop. -/
def Tree.Function.countdown : Tree.Function where
  id := { name := "countdown" }
  params := [{ id := { name := "n" }, type := .i32 }]
  result := .i32
  body :=
    { vars := [{ id := { name := "k" }, type := .i32
                 init := some (.reference "n") }]
      loop := some
        { condition := { name := "k" }
          calls := [{ target := { name := "k" }, callee := { name := "step" }
                      args := [.reference "k"] }] } }

/-- The loop of `countdown` runs, and the value after it is the result. -/
theorem countdown_preserved :
    let functions : FunctionTable := { entries := [("step", .ofTypes [.i32] .i32 .imported)] }
    let w : World Unit := { host := (), memory := ∅, calls := [] }
    ∃ g, (lowerFunction functions .countdown).outcome = .ok g
      ∧ Runs.SameBehaviour (Tree.Function.countdown.run functions (.zero Unit) [.i32 3] w)
          (g.run (.zero Unit) [.i32 3] w)
      ∧ (g.run (.zero Unit) [.i32 3] w 1).ending = .finished (some (.i32 0))
      ∧ (g.run (.zero Unit) [.i32 3] w 1).calls = [⟨"step", [.i32 3]⟩] :=
  ⟨_, rfl, (lowerFunction_preserves_behaviour rfl (.zero Unit) rfl _).1, by decide +kernel,
    by decide +kernel⟩

end CallFlow
