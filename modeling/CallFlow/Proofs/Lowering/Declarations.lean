/-
What the declarations of a function come to.

Declaring is a fold: each name takes the next slot, and the only way to fail is a
wrong tag, a type without values or a name that is taken. So the table of a
function is known before it is built, as the list of its declarations in the
order of their slots (`Tree.Function.declarations`): the parameters, the
variables, and last the sentinel if it was held back. The lemmas here say that
declaring succeeds exactly when that list has no fault, and that it then gives
that table; what later proofs need to know of a slot is read off the list.
-/
import CallFlow.Lowering.Body
import CallFlow.Proofs.SymbolTable

namespace CallFlow

-- ============================================ tags and storable types

/-- A node carries the tag of its kind. -/
def Tree.Tagged {α : Type} [Tree.Node α] (x : α) : Prop :=
  Tree.Node.tag x = (Tree.Node.kind α).tag

open CallFlow.Tree (Tagged)

instance {α : Type} [Tree.Node α] (x : α) : Decidable (Tagged x) :=
  inferInstanceAs (Decidable (_ = _))

/-- The check of a tag passes exactly where the tag is the one of its
kind of node. -/
@[simp]
theorem expectKind_eq_ok {α : Type} [Tree.Node α] {x : α} {u : Unit} :
    expectKind x = .ok u ↔ Tagged x :=
  ite_eq_ok

@[simp]
theorem requireStorable_eq_ok {t : ValueType} {what : String} {span : Option Span} {u : Unit} :
    requireStorable t what span = .ok u ↔ t ≠ .void := by
  unfold requireStorable
  rw [ite_eq_ok, ValueType.isStorable_eq_true]

-- ========================================================= declaring

/-- A declaration comes to an error where it is written if its name is
taken, and else to the table with the name. -/
theorem outcome_declareSlot {t : SymbolTable} {ds : List Declaration} (ht : t.InStep ds)
    (id : Tree.Identifier) (type : ValueType) (origin : Origin) :
    (declareSlot t id type origin).outcome
      = if id.name ∈ t.names then .error (.duplicateDeclaration id.name id.span)
        else .ok (t.push ⟨id.name, type, origin⟩) := by
  unfold declareSlot
  rw [ht.declareAs_eq]
  by_cases h : id.name ∈ t.names
  · rw [if_pos h, if_pos h]
    rfl
  · rw [if_neg h, if_neg h]
    rfl

/-- Declaring one name fails only if it is taken. -/
theorem outcome_declareSlot_eq_ok {t t' : SymbolTable} {ds : List Declaration} (ht : t.InStep ds)
    {id : Tree.Identifier} {type : ValueType} {origin : Origin} :
    (declareSlot t id type origin).outcome = .ok t' ↔
      id.name ∉ t.names ∧ t' = t.push ⟨id.name, type, origin⟩ := by
  rw [outcome_declareSlot ht]
  by_cases h : id.name ∈ t.names
  · rw [if_pos h]
    exact ⟨nofun, fun h' => absurd h h'.1⟩
  · rw [if_neg h, Except.ok.injEq]
    exact ⟨fun ht => ⟨h, ht.symm⟩, fun h' => h'.2.symm⟩

/-- The declaration that a parameter is. -/
def Tree.Param.declaration (p : Tree.Param) : Declaration where
  name := p.id.name
  type := p.type
  origin := .parameter

/-- The declaration that a variable is. -/
def Tree.Variable.declaration (origin : Origin) (v : Tree.Variable) : Declaration where
  name := v.id.name
  type := v.type
  origin := origin

/-- Parameters are declared if all are tagged and storable and no two
names clash, with each other or with what is declared already. The table
then has them pushed in order. -/
theorem outcome_declareParams_eq_ok {t t' : SymbolTable} {ps : List Tree.Param}
    {ds : List Declaration} (ht : t.InStep ds) :
    (declareParams t ps).outcome = .ok t' ↔
      (∀ p ∈ ps, Tagged p ∧ p.type ≠ .void)
        ∧ (t.names ++ ps.map fun p => p.id.name).Nodup
        ∧ t' = t.pushAll (ps.map Tree.Param.declaration) := by
  induction ps generalizing t ds with
  | nil =>
    simp only [declareParams, Traced.outcome_pure, Except.ok.injEq, List.map_nil, List.append_nil]
    refine ⟨fun h => ⟨List.forall_mem_nil _, ht.nodup, h.symm⟩, fun h => h.2.2.symm⟩
  | cons p ps ih =>
    simp only [declareParams, Traced.outcome_bind, Traced.outcome_ofExcept, bind_eq_ok,
      expectKind_eq_ok, requireStorable_eq_ok, outcome_declareSlot_eq_ok ht, List.map_cons,
      List.forall_mem_cons]
    constructor
    · intro h
      obtain ⟨-, htag, -, htype, t₁, ⟨hn, rfl⟩, hrest⟩ := h
      obtain ⟨hps, hnodup, rfl⟩ := (ih (ht.push hn)).mp hrest
      exact ⟨⟨⟨htag, htype⟩, hps⟩, SymbolTable.nodup_push_append.mp ⟨hn, hnodup⟩, rfl⟩
    · intro h
      obtain ⟨⟨⟨htag, htype⟩, hps⟩, hnodup, rfl⟩ := h
      have hfresh : p.declaration.name ∉ t.names
          ∧ ((t.push p.declaration).names ++ ps.map fun p => p.id.name).Nodup :=
        SymbolTable.nodup_push_append.mpr hnodup
      exact ⟨(), htag, (), htype, _, ⟨hfresh.1, rfl⟩,
        (ih (ht.push hfresh.1)).mpr ⟨hps, hfresh.2, rfl⟩⟩

/-- Whether a variable is called like the sentinel. -/
def Tree.Variable.isSentinel (v : Tree.Variable) : Bool :=
  v.id.name == Tree.sentinelName

theorem Tree.Variable.isSentinel_iff {v : Tree.Variable} :
    v.isSentinel = true ↔ v.id.name = Tree.sentinelName :=
  beq_iff_eq

/-- The variables that are declared where they stand. -/
def declaredInPlace (holdBack : Bool) (vs : List Tree.Variable) : List Tree.Variable :=
  if holdBack then vs.eraseP Tree.Variable.isSentinel else vs

/-- The variable that is held back. -/
def heldBack (holdBack : Bool) (vs : List Tree.Variable) : Option Tree.Variable :=
  if holdBack then vs.find? Tree.Variable.isSentinel else none

/-- The declarations of the variables that are declared where they
stand. -/
def declarationsInPlace (holdBack : Bool) (vs : List Tree.Variable) : List Declaration :=
  (declaredInPlace holdBack vs).map (Tree.Variable.declaration .localVariable)

theorem declaredInPlace_nil (holdBack : Bool) : declaredInPlace holdBack [] = [] := by
  cases holdBack <;> rfl

theorem heldBack_nil (holdBack : Bool) : heldBack holdBack [] = none := by
  cases holdBack <;> rfl

/-- Once the sentinel is held back, nothing after it is. -/
theorem declaredInPlace_cons_of_sentinel {v : Tree.Variable} {vs : List Tree.Variable}
    (hv : v.isSentinel = true) : declaredInPlace true (v :: vs) = declaredInPlace false vs := by
  unfold declaredInPlace
  rw [if_pos rfl, if_neg Bool.false_ne_true, List.eraseP_cons_of_pos hv]

/-- The first variable called like the sentinel is the one that is held
back. -/
theorem heldBack_cons_of_sentinel {v : Tree.Variable} {vs : List Tree.Variable}
    (hv : v.isSentinel = true) : heldBack true (v :: vs) = some v := by
  unfold heldBack
  rw [if_pos rfl, List.find?_cons_of_pos hv]

theorem declaredInPlace_cons {holdBack : Bool} {v : Tree.Variable} {vs : List Tree.Variable}
    (h : ¬ (holdBack && v.isSentinel) = true) :
    declaredInPlace holdBack (v :: vs) = v :: declaredInPlace holdBack vs := by
  unfold declaredInPlace
  cases holdBack with
  | false => rfl
  | true =>
    have hv : ¬ v.isSentinel = true := h
    rw [if_pos rfl, if_pos rfl, List.eraseP_cons_of_neg hv]

theorem heldBack_cons {holdBack : Bool} {v : Tree.Variable} {vs : List Tree.Variable}
    (h : ¬ (holdBack && v.isSentinel) = true) :
    heldBack holdBack (v :: vs) = heldBack holdBack vs := by
  unfold heldBack
  cases holdBack with
  | false => rfl
  | true =>
    have hv : ¬ v.isSentinel = true := h
    rw [if_pos rfl, if_pos rfl, List.find?_cons_of_neg hv]

section Split

variable {before after : List Tree.Variable} {v : Tree.Variable}

/-- Only the first sentinel is missing among the variables that are
declared where they stand. -/
theorem declaredInPlace_split (hbefore : ∀ w ∈ before, ¬ w.isSentinel = true)
    (hv : v.isSentinel = true) : declaredInPlace true (before ++ v :: after) = before ++ after := by
  unfold declaredInPlace
  rw [if_pos rfl, List.eraseP_append_right _ hbefore, List.eraseP_cons_of_pos hv]

/-- The variable held back is the first of its name, so what stands
behind it plays no part. -/
theorem heldBack_split (hbefore : ∀ w ∈ before, ¬ w.isSentinel = true)
    (hv : v.isSentinel = true) : heldBack true (before ++ v :: after) = some v := by
  unfold heldBack
  rw [if_pos rfl, List.find?_append, List.find?_eq_none.mpr hbefore, Option.none_or,
    List.find?_cons_of_pos hv]

/-- A body that loops under its sentinel has a first variable of that
name. -/
theorem exists_first_sentinel {body : Tree.Body} (h : hasSentinel body = true) :
    ∃ before v after, body.vars = before ++ v :: after ∧ v.isSentinel = true
      ∧ ∀ w ∈ before, ¬ w.isSentinel = true := by
  have hany : (body.vars.any Tree.Variable.isSentinel) = true := (Bool.and_eq_true_iff.mp h).2
  obtain ⟨u, hu, hsentinel⟩ := List.any_eq_true.mp hany
  obtain ⟨v, before, after, hbefore, hv, hvars, -⟩ := List.exists_of_eraseP hu hsentinel
  exact ⟨before, v, after, hvars, hv, hbefore⟩

end Split

/-- Variables are declared if all are tagged and storable and the names
in place do not clash. The one that is held back is handed on and is not
in the table yet. -/
theorem outcome_declareVariables_eq_ok {t t' : SymbolTable} {holdBack : Bool}
    {vs : List Tree.Variable} {sentinel : Option Tree.Variable} {ds : List Declaration}
    (ht : t.InStep ds) :
    (declareVariables t holdBack vs).outcome = .ok (t', sentinel) ↔
      (∀ v ∈ vs, Tagged v ∧ v.type ≠ .void)
        ∧ (t.names ++ (declaredInPlace holdBack vs).map fun v => v.id.name).Nodup
        ∧ t' = t.pushAll (declarationsInPlace holdBack vs)
        ∧ sentinel = heldBack holdBack vs := by
  induction vs generalizing t t' ds holdBack sentinel with
  | nil =>
    simp only [declareVariables, Traced.outcome_pure, Except.ok.injEq, declarationsInPlace,
      declaredInPlace_nil, heldBack_nil, List.map_nil, List.append_nil, Prod.mk.injEq]
    constructor
    · intro h
      exact ⟨List.forall_mem_nil _, ht.nodup, h.1.symm, h.2.symm⟩
    · intro h
      exact ⟨h.2.2.1.symm, h.2.2.2.symm⟩
  | cons v vs ih =>
    simp only [declareVariables, Traced.outcome_bind, Traced.outcome_ofExcept, bind_eq_ok,
      expectKind_eq_ok, requireStorable_eq_ok, List.forall_mem_cons]
    by_cases hs : (holdBack && v.isSentinel) = true
    · -- the sentinel is held back, and nothing else after it
      obtain ⟨rfl, hv⟩ := Bool.and_eq_true_iff.mp hs
      have hcond : (true && v.id.name == Tree.sentinelName) = true := hs
      simp only [declarationsInPlace, declaredInPlace_cons_of_sentinel hv,
        heldBack_cons_of_sentinel hv, hcond, if_true, Traced.outcome_bind, bind_eq_ok,
        Traced.outcome_pure, Except.ok.injEq]
      constructor
      · intro h
        obtain ⟨-, htag, -, htype, ⟨t₁, s₁⟩, hrest, heq⟩ := h
        obtain ⟨rfl, rfl⟩ := Prod.mk.inj heq
        obtain ⟨hvs, hnodup, rfl, -⟩ := (ih ht).mp hrest
        exact ⟨⟨⟨htag, htype⟩, hvs⟩, hnodup, rfl, rfl⟩
      · intro h
        obtain ⟨⟨⟨htag, htype⟩, hvs⟩, hnodup, rfl, rfl⟩ := h
        exact ⟨(), htag, (), htype, _, (ih ht).mpr ⟨hvs, hnodup, rfl, rfl⟩, rfl⟩
    · have hcond : (holdBack && v.id.name == Tree.sentinelName) = false := by
        simpa [Tree.Variable.isSentinel] using hs
      simp only [declarationsInPlace, declaredInPlace_cons hs, heldBack_cons hs, hcond,
        Bool.false_eq_true, if_false, Traced.outcome_bind, bind_eq_ok, outcome_declareSlot_eq_ok ht,
        List.map_cons]
      constructor
      · intro h
        obtain ⟨-, htag, -, htype, t₁, ⟨hn, rfl⟩, hrest⟩ := h
        obtain ⟨hvs, hnodup, rfl, rfl⟩ := (ih (ht.push hn)).mp hrest
        exact ⟨⟨⟨htag, htype⟩, hvs⟩, SymbolTable.nodup_push_append.mp ⟨hn, hnodup⟩, rfl, rfl⟩
      · intro h
        obtain ⟨⟨⟨htag, htype⟩, hvs⟩, hnodup, rfl, rfl⟩ := h
        have hfresh : (v.declaration .localVariable).name ∉ t.names
            ∧ ((t.push (v.declaration .localVariable)).names
                ++ (declaredInPlace holdBack vs).map fun v => v.id.name).Nodup :=
          SymbolTable.nodup_push_append.mpr hnodup
        exact ⟨(), htag, (), htype, _, ⟨hfresh.1, rfl⟩,
          (ih (ht.push hfresh.1)).mpr ⟨hvs, hfresh.2, rfl, rfl⟩⟩

/-- The variable that was held back is declared last, if its name is
still free. -/
theorem outcome_declareSentinel_eq_ok {t t' : SymbolTable} {sentinel : Option Tree.Variable}
    {ds : List Declaration} (ht : t.InStep ds) :
    (declareSentinel t sentinel).outcome = .ok t' ↔
      (∀ v ∈ sentinel, v.id.name ∉ t.names)
        ∧ t' = t.pushAll (sentinel.toList.map (Tree.Variable.declaration .sentinel)) := by
  cases sentinel with
  | none =>
    simp only [declareSentinel, Traced.outcome_pure, Except.ok.injEq, Option.toList_none,
      List.map_nil]
    exact ⟨fun h => ⟨fun v hv => (by cases hv), h.symm⟩, fun h => h.2.symm⟩
  | some v =>
    simp only [declareSentinel, outcome_declareSlot_eq_ok ht, Option.mem_def, Option.some.injEq,
      forall_eq', Option.toList_some, List.map_cons, List.map_nil]
    rfl

-- =================================================== a whole function

/-- Holding a variable back only moves it to the end. -/
theorem declaredInPlace_append_heldBack (holdBack : Bool) (vs : List Tree.Variable) :
    (declaredInPlace holdBack vs ++ (heldBack holdBack vs).toList).Perm vs := by
  cases holdBack with
  | false =>
    show (vs ++ []).Perm vs
    rw [List.append_nil]
  | true =>
    show (vs.eraseP Tree.Variable.isSentinel
      ++ (vs.find? Tree.Variable.isSentinel).toList).Perm vs
    induction vs with
    | nil => exact .nil
    | cons v vs ih =>
      by_cases hv : v.isSentinel = true
      · rw [List.eraseP_cons_of_pos hv, List.find?_cons_of_pos hv]
        exact List.perm_append_singleton v vs
      · rw [List.eraseP_cons_of_neg hv, List.find?_cons_of_neg hv]
        exact ih.cons v

namespace Tree.Function

/-- The variables of a function in the order of their slots. -/
def variableDeclarations (f : Tree.Function) : List Declaration :=
  declarationsInPlace (hasSentinel f.body) f.body.vars
    ++ (heldBack (hasSentinel f.body) f.body.vars).toList.map (Tree.Variable.declaration .sentinel)

/-- All declarations of a function in the order of their slots. -/
def declarations (f : Tree.Function) : List Declaration :=
  f.params.map Tree.Param.declaration ++ f.variableDeclarations

/-- The table of a function. -/
def layout (f : Tree.Function) : SymbolTable :=
  ({} : SymbolTable).pushAll f.declarations

/-- The declared names as they are written. -/
def declaredNames (f : Tree.Function) : List String :=
  (f.params.map fun p => p.id.name) ++ f.body.vars.map fun v => v.id.name

/-- The declarations of a function have no fault. -/
structure Declares (f : Tree.Function) : Prop where
  params : ∀ p ∈ f.params, Tagged p ∧ p.type ≠ .void
  vars : ∀ v ∈ f.body.vars, Tagged v ∧ v.type ≠ .void
  nodup : f.declaredNames.Nodup

/-- Names and types of the variables, by slot and as they are written. -/
theorem variableDeclarations_perm (f : Tree.Function) :
    (f.variableDeclarations.map fun d => (d.name, d.type)).Perm
      (f.body.vars.map fun v => (v.id.name, v.type)) := by
  have h := (declaredInPlace_append_heldBack (hasSentinel f.body) f.body.vars).map
    fun v => (v.id.name, v.type)
  unfold variableDeclarations declarationsInPlace
  rw [List.map_append] at h ⊢
  rw [List.map_map, List.map_map]
  exact h

/-- To hold a variable back moves its name to the end and loses none, so
names clash in one order exactly when they clash in the other. -/
theorem names_declarations_perm (f : Tree.Function) :
    (f.declarations.map Declaration.name).Perm f.declaredNames := by
  unfold declarations declaredNames
  rw [List.map_append, List.map_map]
  have h := f.variableDeclarations_perm.map Prod.fst
  rw [List.map_map, List.map_map] at h
  exact h.append_left _

/-- The table of a function has the declared names, and no others. -/
theorem mem_names_layout {f : Tree.Function} {name : String} :
    name ∈ f.layout.names ↔ name ∈ f.declaredNames := by
  unfold layout
  rw [SymbolTable.names_pushAll]
  exact f.names_declarations_perm.mem_iff

/-- A body that loops under its sentinel declares it. -/
theorem sentinelName_mem_layout {f : Tree.Function} (h : hasSentinel f.body = true) :
    sentinelName ∈ f.layout.names := by
  obtain ⟨v, hv, hvname⟩ := List.any_eq_true.mp (Bool.and_eq_true_iff.mp h).2
  rw [mem_names_layout]
  exact List.mem_append_right _ (List.mem_map.mpr ⟨v, hv, eq_of_beq hvname⟩)

/-- A function that declares its slots declares each name once. -/
theorem Declares.nodup_declarations {f : Tree.Function} (h : f.Declares) :
    (f.declarations.map Declaration.name).Nodup :=
  f.names_declarations_perm.nodup_iff.mpr h.nodup

/-- The names in the order in which their slots are numbered:
parameters, variables in place, the one held back. -/
theorem names_declarations (f : Tree.Function) :
    f.declarations.map Declaration.name
      = ((f.params.map fun p => p.id.name)
          ++ (declaredInPlace (hasSentinel f.body) f.body.vars).map fun v => v.id.name)
        ++ (heldBack (hasSentinel f.body) f.body.vars).toList.map fun v => v.id.name := by
  unfold declarations variableDeclarations declarationsInPlace
  rw [List.map_append, List.map_append, List.map_map, List.map_map, List.map_map,
    List.append_assoc]
  rfl

/-- The names in the table before the variables are declared. -/
theorem names_declareParams (f : Tree.Function) :
    (({} : SymbolTable).pushAll (f.params.map Tree.Param.declaration)).names
      = f.params.map fun p => p.id.name := by
  rw [SymbolTable.names_pushAll, List.map_map]
  rfl

/-- The names in the table before the sentinel is declared. -/
theorem names_declareVariables (f : Tree.Function) :
    ((({} : SymbolTable).pushAll (f.params.map Tree.Param.declaration)).pushAll
        (declarationsInPlace (hasSentinel f.body) f.body.vars)).names
      = (f.params.map fun p => p.id.name)
          ++ (declaredInPlace (hasSentinel f.body) f.body.vars).map fun v => v.id.name := by
  rw [SymbolTable.names_pushAll, names_declareParams]
  unfold declarationsInPlace
  rw [List.map_map]
  rfl

/-- The table after the parameters is in step with their declarations. -/
theorem inStep_declareParams {f : Tree.Function} (h : (f.params.map fun p => p.id.name).Nodup) :
    (({} : SymbolTable).pushAll (f.params.map Tree.Param.declaration)).InStep
      (f.params.map Tree.Param.declaration) := by
  refine SymbolTable.inStep_pushAll ?_
  rw [List.map_map]
  exact h

/-- The table after the variables in place is in step with the
declarations so far, which is what the declaration of the sentinel
starts from. -/
theorem inStep_declareVariables {f : Tree.Function}
    (h : ((f.params.map fun p => p.id.name)
      ++ (declaredInPlace (hasSentinel f.body) f.body.vars).map fun v => v.id.name).Nodup) :
    ((({} : SymbolTable).pushAll (f.params.map Tree.Param.declaration)).pushAll
        (declarationsInPlace (hasSentinel f.body) f.body.vars)).InStep
      (f.params.map Tree.Param.declaration
        ++ declarationsInPlace (hasSentinel f.body) f.body.vars) := by
  rw [← SymbolTable.pushAll_append]
  refine SymbolTable.inStep_pushAll ?_
  unfold declarationsInPlace
  rw [List.map_append, List.map_map, List.map_map]
  exact h

/-- The table of a function, in the steps in which it is made. -/
theorem layout_eq (f : Tree.Function) :
    f.layout = ((({} : SymbolTable).pushAll (f.params.map Tree.Param.declaration)).pushAll
        (declarationsInPlace (hasSentinel f.body) f.body.vars)).pushAll
          ((heldBack (hasSentinel f.body) f.body.vars).toList.map
            (Tree.Variable.declaration .sentinel)) := by
  unfold layout declarations variableDeclarations
  rw [SymbolTable.pushAll_append, SymbolTable.pushAll_append]

/-- Declaring everything in turn succeeds exactly when the declarations
have no fault, and gives the table of the function. The three stages are
parameters, variables in place and the sentinel; each starts from the
table that the one before it left, which is in step with the
declarations up to there. -/
theorem declares_iff {f : Tree.Function} {t : SymbolTable} {sentinel : Option Tree.Variable} :
    (∃ t₁ t₂, (declareParams {} f.params).outcome = .ok t₁
        ∧ (declareVariables t₁ (hasSentinel f.body) f.body.vars).outcome = .ok (t₂, sentinel)
        ∧ (declareSentinel t₂ sentinel).outcome = .ok t) ↔
      f.Declares ∧ t = f.layout ∧ sentinel = heldBack (hasSentinel f.body) f.body.vars := by
  have hnames₁ := f.names_declareParams
  have hnames₂ := f.names_declareVariables
  constructor
  · intro h
    obtain ⟨t₁, t₂, h₁, h₂, h₃⟩ := h
    obtain ⟨hparams, hnodup₁, rfl⟩ := (outcome_declareParams_eq_ok SymbolTable.inStep_empty).mp h₁
    obtain ⟨hvars, hnodup₂, rfl, rfl⟩ :=
      (outcome_declareVariables_eq_ok (inStep_declareParams hnodup₁)).mp h₂
    rw [hnames₁] at hnodup₂
    obtain ⟨hfresh, rfl⟩ :=
      (outcome_declareSentinel_eq_ok (inStep_declareVariables hnodup₂)).mp h₃
    rw [hnames₂] at hfresh
    refine ⟨⟨hparams, hvars, ?_⟩, f.layout_eq.symm, rfl⟩
    rw [← f.names_declarations_perm.nodup_iff, names_declarations]
    cases hs : heldBack (hasSentinel f.body) f.body.vars with
    | none =>
      rw [Option.toList_none, List.map_nil, List.append_nil]
      exact hnodup₂
    | some v => exact List.concat_eq_append ▸ hnodup₂.concat (hfresh v hs)
  · intro h
    obtain ⟨⟨hparams, hvars, hnodup⟩, rfl, rfl⟩ := h
    rw [← f.names_declarations_perm.nodup_iff, names_declarations] at hnodup
    have hnodup₂ := (List.nodup_append.mp hnodup).1
    have hnodup₁ := (List.nodup_append.mp hnodup₂).1
    refine ⟨_, _,
      (outcome_declareParams_eq_ok SymbolTable.inStep_empty).mpr ⟨hparams, hnodup₁, rfl⟩,
      (outcome_declareVariables_eq_ok (inStep_declareParams hnodup₁)).mpr
        ⟨hvars, hnames₁.symm ▸ hnodup₂, rfl, rfl⟩,
      (outcome_declareSentinel_eq_ok (inStep_declareVariables hnodup₂)).mpr ⟨?_, f.layout_eq⟩⟩
    intro v hv hmem
    rw [hnames₂] at hmem
    have hv' : v.id.name
        ∈ (heldBack (hasSentinel f.body) f.body.vars).toList.map fun v => v.id.name := by
      rw [Option.mem_def.mp hv]
      exact List.mem_cons_self
    exact (List.nodup_append.mp hnodup).2.2 _ hmem _ hv' rfl

/-- No variable is a parameter. -/
theorem origin_variableDeclarations {f : Tree.Function} {d : Declaration}
    (h : d ∈ f.variableDeclarations) : d.origin ≠ .parameter := by
  unfold variableDeclarations declarationsInPlace at h
  rcases List.mem_append.mp h with h | h
  · obtain ⟨v, -, rfl⟩ := List.mem_map.mp h
    nofun
  · obtain ⟨v, -, rfl⟩ := List.mem_map.mp h
    nofun

end Tree.Function

-- ================================================== slots by declaration

namespace Tree.Function

/-- The table of a function is in step with its declarations. -/
theorem Declares.inStep_layout {f : Tree.Function} (h : f.Declares) :
    f.layout.InStep f.declarations :=
  SymbolTable.inStep_pushAll h.nodup_declarations

/-- The parameters of a lowered function have the declared types. -/
theorem parameterTypes_layout {f : Tree.Function} (h : f.Declares) :
    f.layout.parameterTypes = f.params.map Tree.Param.type := by
  have hparams : (f.params.map Tree.Param.declaration).filter (fun d => d.origin = .parameter)
      = f.params.map Tree.Param.declaration := by
    rw [List.filter_eq_self]
    intro d hd
    obtain ⟨p, -, rfl⟩ := List.mem_map.mp hd
    rfl
  have hvars : f.variableDeclarations.filter (fun d => d.origin = .parameter) = [] := by
    rw [List.filter_eq_nil_iff]
    intro d hd
    simpa using origin_variableDeclarations hd
  rw [h.inStep_layout.parameterTypes_eq]
  unfold declarations
  rw [List.filter_append, hparams, hvars, List.append_nil, List.map_map]
  rfl

/-- The locals of a lowered function have the types of the variables, in
the order of their slots. -/
theorem localTypes_layout {f : Tree.Function} (h : f.Declares) :
    f.layout.localTypes = f.variableDeclarations.map Declaration.type := by
  have hparams : (f.params.map Tree.Param.declaration).filter (fun d => d.origin ≠ .parameter)
      = [] := by
    rw [List.filter_eq_nil_iff]
    intro d hd
    obtain ⟨p, -, rfl⟩ := List.mem_map.mp hd
    nofun
  have hvars : f.variableDeclarations.filter (fun d => d.origin ≠ .parameter)
      = f.variableDeclarations := by
    rw [List.filter_eq_self]
    intro d hd
    simpa using origin_variableDeclarations hd
  rw [h.inStep_layout.localTypes_eq]
  unfold declarations
  rw [List.filter_append, hparams, hvars, List.nil_append]

/-- A name and its slot, by the declaration they come from. -/
theorem lookup?_layout {f : Tree.Function} (h : f.Declares) {name : String} {slot : Slot} :
    f.layout.lookup? name = some slot ↔
      ∃ d, f.declarations[slot.index]? = some d ∧ d.name = name ∧ slot = d.slot slot.index :=
  h.inStep_layout.lookup?_eq_some

-- =============================================================== scope

/-- The names that a function declares, with their types, as they are
written. -/
def scope (f : Tree.Function) : List (String × ValueType) :=
  (f.params.map fun p => (p.id.name, p.type)) ++ f.body.vars.map fun v => (v.id.name, v.type)

/-- Names and types in order of the slots are those of the scope, up to
order. -/
theorem declarations_perm_scope (f : Tree.Function) :
    (f.declarations.map fun d => (d.name, d.type)).Perm f.scope := by
  unfold declarations scope
  rw [List.map_append, List.map_map]
  exact f.variableDeclarations_perm.append_left _

/-- What is in scope has a slot of its type, and every slot is for
something in scope. -/
theorem mem_scope {f : Tree.Function} (h : f.Declares) {name : String} {t : ValueType} :
    (name, t) ∈ f.scope ↔ ∃ slot, f.layout.lookup? name = some slot ∧ slot.type = t := by
  rw [← f.declarations_perm_scope.mem_iff, List.mem_map]
  constructor
  · rintro ⟨d, hd, hpair⟩
    cases hpair
    obtain ⟨i, hi⟩ := List.mem_iff_getElem?.mp hd
    exact ⟨d.slot i, (lookup?_layout h).mpr ⟨d, hi, rfl, rfl⟩, rfl⟩
  · rintro ⟨slot, hslot, rfl⟩
    obtain ⟨d, hd, rfl, hs⟩ := (lookup?_layout h).mp hslot
    refine ⟨d, List.mem_of_getElem? hd, ?_⟩
    rw [hs]
    rfl

/-- A value of every type in scope can be stored. -/
theorem Declares.type_ne_void {f : Tree.Function} (h : f.Declares) {name : String} {slot : Slot}
    (hslot : f.layout.lookup? name = some slot) : slot.type ≠ .void := by
  have hmem : (name, slot.type) ∈ f.scope := (mem_scope h).mpr ⟨slot, hslot, rfl⟩
  unfold scope at hmem
  rw [List.mem_append, List.mem_map, List.mem_map] at hmem
  rcases hmem with ⟨p, hp, hpair⟩ | ⟨v, hv, hpair⟩
  · rw [← (Prod.mk.inj hpair).2]
    exact (h.params p hp).2
  · rw [← (Prod.mk.inj hpair).2]
    exact (h.vars v hv).2

end Tree.Function

end CallFlow
