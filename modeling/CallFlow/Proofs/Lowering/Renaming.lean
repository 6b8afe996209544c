/-
Lowering does not depend on the names of variables.

A renaming acts on the names that a function declares and uses as variables: those of parameters
and variables, of operands, of the targets of calls and of the condition of a loop. The names of
functions stay. If it keeps these names apart and keeps the sentinel, the renamed function is like
the function, each name matching its image, so the two lower alike and only the names of the slots
are renamed.
-/
import CallFlow.Proofs.Lowering.Likeness
import Mathlib.Logic.Equiv.Basic

namespace CallFlow

open CallFlow.Tree (Tagged)

-- ================================================ statement vocabulary

namespace Tree

/-- The variable that an operand refers to. -/
def Operand.reference? (o : Operand) : Option String :=
  match o.kind with
  | .ok (.reference name) => some name
  | _ => none

/-- The variables in a declaration: the one declared, and one that it
starts from. -/
def Variable.variableNames (v : Variable) : List String :=
  v.id.name :: (v.init.bind Operand.reference?).toList

/-- The variables in a call. -/
def Call.variableNames (c : Call) : List String :=
  c.target.name :: c.args.filterMap Operand.reference?

/-- The variables that a function declares and uses, with repetitions. -/
def Function.variableNames (f : Function) : List String :=
  (f.params.map fun p => p.id.name) ++ f.body.vars.flatMap Variable.variableNames
    ++ f.body.allCalls.flatMap Call.variableNames
    ++ (f.body.loop.map fun l => l.condition.name).toList

section Renaming

variable (ρ : String → String)

/-- An identifier with its name changed. -/
def Identifier.rename (i : Identifier) : Identifier :=
  { i with name := ρ i.name }

/-- An operand with its name changed. -/
def Operand.rename (o : Operand) : Operand :=
  { o with name := o.name.map ρ }

/-- A parameter with its name changed. -/
def Param.rename (p : Param) : Param :=
  { p with id := p.id.rename ρ }

/-- A declaration with the names of its variables changed. -/
def Variable.rename (v : Variable) : Variable :=
  { v with id := v.id.rename ρ, init := v.init.map (Operand.rename ρ) }

/-- A call with the names of its variables changed. -/
def Call.renameVariables (c : Call) : Call :=
  { c with target := c.target.rename ρ, args := c.args.map (Operand.rename ρ) }

/-- A loop with the names of its variables changed. -/
def Loop.renameVariables (l : Loop) : Loop :=
  { l with condition := l.condition.rename ρ, calls := l.calls.map (Call.renameVariables ρ) }

/-- A body with the names of its variables changed. -/
def Body.renameVariables (b : Body) : Body :=
  { b with
    vars := b.vars.map (Variable.rename ρ)
    calls := b.calls.map (Call.renameVariables ρ)
    loop := b.loop.map (Loop.renameVariables ρ) }

/-- A function with the names of its variables changed. -/
def Function.renameVariables (f : Function) : Function :=
  { f with params := f.params.map (Param.rename ρ), body := f.body.renameVariables ρ }

/-- What an operand is, with its name changed. -/
def OperandKind.rename : OperandKind → OperandKind
  | reference name => reference (ρ name)
  | integer type n => integer type n
  | float x => float x
  | void => void

end Renaming

-- ============================================ the renamed parts are alike

section Parts

variable {R : String → String → Prop} {ρ : String → String}

/-- An operand stays what it is, whatever names it carries. -/
theorem Operand.kind_rename (o : Operand) :
    (o.rename ρ).kind = o.kind.map (OperandKind.rename ρ) := by
  obtain ⟨tag, name, value, span⟩ := o
  unfold rename kind integerOf malformed
  dsimp only
  split
  · cases name <;> rfl
  · cases value with
    | none => rfl
    | some l => cases l <;> rfl
  · cases value with
    | none => rfl
    | some l => cases l <;> rfl
  · cases value with
    | none => rfl
    | some l => cases l <;> rfl
  · rfl
  · rfl

/-- A renamed operand is alike if its own name is related to the new
one. -/
theorem Operand.alike_rename {o : Operand} (h : ∀ a ∈ o.reference?, R a (ρ a)) :
    o.Alike R (o.rename ρ) := by
  unfold Operand.Alike
  unfold reference? at h
  rw [kind_rename]
  cases hkind : o.kind with
  | error e => exact .none
  | ok k =>
    rw [hkind] at h
    cases k with
    | reference name => exact .some (.reference (h name rfl))
    | integer type n => exact .some (.integer type n)
    | float x => exact .some (.float x)
    | void => exact .some .void

/-- A renamed variable is alike if its name and those that it starts
with are related to the new ones. -/
theorem Variable.alike_rename {v : Variable} (h : ∀ a ∈ v.variableNames, R a (ρ a)) :
    v.Alike R (v.rename ρ) := by
  obtain ⟨hname, hinit⟩ := List.forall_mem_cons.mp h
  refine ⟨hname, rfl, ?_⟩
  show Option.Rel _ v.init (v.init.map _)
  cases hv : v.init with
  | none => exact .none
  | some o =>
    rw [hv] at hinit
    exact .some (Operand.alike_rename fun a ha => hinit a (Option.mem_toList.mpr ha))

/-- A call whose variables are renamed is alike; its callee is not
renamed. -/
theorem Call.alike_renameVariables {c : Call} (h : ∀ a ∈ c.variableNames, R a (ρ a)) :
    c.Alike R (c.renameVariables ρ) := by
  obtain ⟨htarget, hargs⟩ := List.forall_mem_cons.mp h
  refine ⟨htarget, rfl, ?_⟩
  show List.Forall₂ _ c.args (c.args.map _)
  rw [List.forall₂_map_right_iff, List.forall₂_same]
  intro o ho
  refine Operand.alike_rename fun a ha => hargs a ?_
  exact List.mem_filterMap.mpr ⟨o, ho, ha⟩

/-- The calls of a renamed body are the calls of the body, renamed. -/
theorem Body.allCalls_renameVariables (b : Body) :
    (b.renameVariables ρ).allCalls = b.allCalls.map (Call.renameVariables ρ) := by
  unfold allCalls renameVariables
  cases b.loop <;> rfl

/-- A renamed function is like the function under any relation between
names and their images. Only names of variables change, so tags, types
and callees are the same on both sides. -/
theorem Function.alike_renameVariables {f : Function} (h : ∀ a ∈ f.variableNames, R a (ρ a)) :
    f.Alike R (f.renameVariables ρ) := by
  unfold variableNames at h
  simp only [List.forall_mem_append] at h
  obtain ⟨⟨⟨hparams, hvars⟩, hcalls⟩, hloop⟩ := h
  refine ⟨rfl, ?_, rfl, ?_, ?_, ?_, List.map_eq_nil_iff.symm⟩
  · show List.Forall₂ _ f.params (f.params.map _)
    rw [List.forall₂_map_right_iff, List.forall₂_same]
    intro p hp
    exact ⟨hparams _ (List.mem_map_of_mem hp), rfl⟩
  · show List.Forall₂ _ f.body.vars (f.body.vars.map _)
    rw [List.forall₂_map_right_iff, List.forall₂_same]
    intro v hv
    exact Variable.alike_rename fun a ha => hvars a (List.mem_flatMap.mpr ⟨v, hv, ha⟩)
  · show Option.Rel _ f.body.loop (f.body.loop.map _)
    cases hl : f.body.loop with
    | none => exact .none
    | some l =>
      rw [hl] at hloop
      exact .some (hloop _ List.mem_cons_self)
  · show List.Forall₂ _ f.body.allCalls (f.body.renameVariables ρ).allCalls
    rw [Body.allCalls_renameVariables, List.forall₂_map_right_iff, List.forall₂_same]
    intro c hc
    exact Call.alike_renameVariables fun a ha => hcalls a (List.mem_flatMap.mpr ⟨c, hc, ha⟩)

/-- A renaming keeps all tags. -/
theorem Function.rightlyTagged_renameVariables (f : Function) (ρ : String → String) :
    (f.renameVariables ρ).RightlyTagged ↔ f.RightlyTagged := by
  have hcalls : (f.renameVariables ρ).body.allCalls
      = f.body.allCalls.map (Call.renameVariables ρ) :=
    f.body.allCalls_renameVariables
  refine ⟨fun h => ⟨fun p hp => ?_, h.body, fun v hv => ?_, fun l hl => ?_, fun c hc => ?_⟩,
    fun h => ⟨fun p hp => ?_, h.body, fun v hv => ?_, fun l hl => ?_, fun c hc => ?_⟩⟩
  · exact h.params (p.rename ρ) (List.mem_map_of_mem hp)
  · exact h.vars (v.rename ρ) (List.mem_map_of_mem hv)
  · exact h.loop (l.renameVariables ρ) (Option.mem_map_of_mem _ hl)
  · exact h.calls (c.renameVariables ρ) (hcalls ▸ List.mem_map_of_mem hc)
  · obtain ⟨q, hq, rfl⟩ := List.mem_map.mp hp
    exact h.params q hq
  · obtain ⟨w, hw, rfl⟩ := List.mem_map.mp hv
    exact h.vars w hw
  · obtain ⟨k, hk, rfl⟩ := Option.map_eq_some_iff.mp hl
    exact h.loop k hk
  · obtain ⟨d, hd, rfl⟩ := List.mem_map.mp (hcalls ▸ hc)
    exact h.calls d hd

end Parts

end Tree

-- ======================================================= the functions

section Functions

variable {functions : FunctionTable} {f : Tree.Function} {ρ : String → String}

/-- A name of a function and its image. -/
def Tree.Function.Renames (f : Tree.Function) (ρ : String → String) (a b : String) : Prop :=
  a ∈ f.variableNames ∧ b = ρ a

/-- A renaming that is injective on the names of a function, and treats
the sentinel as itself only, is a matching. -/
theorem matching_renames
    (hinj : ∀ a ∈ f.variableNames, ∀ b ∈ f.variableNames, ρ a = ρ b → a = b)
    (hsentinel : ∀ a ∈ f.variableNames, ρ a = Tree.sentinelName ↔ a = Tree.sentinelName) :
    Matching (f.Renames ρ) := by
  refine ⟨fun hab hab' => ?_, fun hab => ?_⟩
  · obtain ⟨ha, rfl⟩ := hab
    obtain ⟨ha', rfl⟩ := hab'
    exact ⟨congrArg ρ, hinj _ ha _ ha'⟩
  · obtain ⟨ha, rfl⟩ := hab
    exact (hsentinel _ ha).symm

/-- A function is like itself renamed, under the relation between old
names and new ones. -/
theorem alike_renames (f : Tree.Function) (ρ : String → String) :
    f.Alike (f.Renames ρ) (f.renameVariables ρ) :=
  Tree.Function.alike_renameVariables fun _ ha => ⟨ha, rfl⟩

/-- The slots of a renamed function have the renamed names. -/
theorem names_layout_renameVariables (hρ : Matching (f.Renames ρ)) :
    (f.renameVariables ρ).layout.names = f.layout.names.map ρ := by
  have hall := (alike_renames f ρ).layout hρ
  have hnames : List.Forall₂ Eq (f.layout.names.map ρ) (f.renameVariables ρ).layout.names := by
    rw [List.forall₂_map_left_iff]
    exact hall.names.imp fun a b hab => hab.2.symm
  rw [List.forall₂_eq_eq_eq] at hnames
  exact hnames.symm

end Functions

/-- Lowering does not depend on the names of variables. Take a renaming
that keeps the variables of a function apart and maps one of them to the
sentinel exactly if it is the sentinel. The renamed function is accepted
exactly when the function is, and the two come to the same parameters,
locals, result, code and graph, with the names of the slots renamed. -/
theorem lowerFunction_renameVariables {functions : FunctionTable} {f : Tree.Function}
    {ρ : String → String}
    (hinj : ∀ a ∈ f.variableNames, ∀ b ∈ f.variableNames, ρ a = ρ b → a = b)
    (hsentinel : ∀ a ∈ f.variableNames, ρ a = Tree.sentinelName ↔ a = Tree.sentinelName) :
    ((∃ g, (lowerFunction functions (f.renameVariables ρ)).outcome = .ok g) ↔
        ∃ g, (lowerFunction functions f).outcome = .ok g)
      ∧ ∀ g g', (lowerFunction functions f).outcome = .ok g →
          (lowerFunction functions (f.renameVariables ρ)).outcome = .ok g' →
          g' = { g with slotNames := g.slotNames.map ρ } := by
  have hρ := matching_renames hinj hsentinel
  have hlike := alike_renames f ρ
  have hforth : ∀ g, (lowerFunction functions f).outcome = .ok g →
      (lowerFunction functions (f.renameVariables ρ)).outcome
        = .ok { g with slotNames := g.slotNames.map ρ } := by
    intro g hg
    obtain ⟨inits, calls, guard, slot, hparts, rfl⟩ := outcome_lowerFunction_eq_ok.mp hg
    have htags := (f.rightlyTagged_renameVariables ρ).mpr hparts.rightlyTagged
    rw [outcome_lowerFunction_of_alike hρ hlike htags hg, names_layout_renameVariables hρ]
    rfl
  refine ⟨⟨fun h => ?_, fun h => ?_⟩, fun g g' hg hg' => ?_⟩
  · obtain ⟨g', hg'⟩ := h
    obtain ⟨inits, calls, guard, slot, hparts, -⟩ := outcome_lowerFunction_eq_ok.mp hg'
    have htags := (f.rightlyTagged_renameVariables ρ).mp hparts.rightlyTagged
    exact ⟨_, outcome_lowerFunction_of_alike hρ.symm hlike.symm htags hg'⟩
  · obtain ⟨g, hg⟩ := h
    exact ⟨_, hforth g hg⟩
  · rw [hforth g hg] at hg'
    exact (Except.ok.inj hg').symm

/-- A function whose first variable starts from the sentinel, which is
declared after it. -/
def Tree.Function.rounds : Tree.Function where
  id := { name := "rounds" }
  params := [{ id := { name := "n" }, type := .i32 }]
  result := .i32
  body :=
    { vars := [{ id := { name := "x" }, type := .i32, init := some (.reference sentinelName) },
               { id := { name := sentinelName }, type := .i32, init := some (.reference "n") },
               { id := { name := "y" }, type := .i64 }]
      calls := [{ target := { name := sentinelName }, callee := { name := "next" }
                  args := [.reference sentinelName] },
                { target := { name := "x" }, callee := { name := "next" }
                  args := [.reference "n"] }] }

/-- The table that `rounds` is lowered against. -/
def FunctionTable.rounds : FunctionTable where
  entries := [("next", .ofTypes [.i32] .i32 .imported)]

/-- Exchanging the names of the parameter and a variable of `rounds`
exchanges them in the names of the slots and nowhere else. -/
theorem rounds_renamed :
    ∃ g g', (lowerFunction .rounds .rounds).outcome = .ok g
      ∧ (lowerFunction .rounds (Tree.Function.rounds.renameVariables (Equiv.swap "n" "x"))).outcome
          = .ok g'
      ∧ g.slotNames = ["n", "x", "y", "_breqz"] ∧ g'.slotNames = ["x", "n", "y", "_breqz"]
      ∧ g.hasLoop = true ∧ g'.body = g.body ∧ g'.graph = g.graph := by
  have hinj : ∀ a ∈ Tree.Function.rounds.variableNames, ∀ b ∈ Tree.Function.rounds.variableNames,
      Equiv.swap "n" "x" a = Equiv.swap "n" "x" b → a = b :=
    fun a _ b _ h => (Equiv.swap "n" "x").injective h
  have hsentinel : ∀ a ∈ Tree.Function.rounds.variableNames,
      Equiv.swap "n" "x" a = Tree.sentinelName ↔ a = Tree.sentinelName := by decide
  obtain ⟨g, hg, hnames, hloop⟩ : ∃ g : Function,
      (lowerFunction .rounds .rounds).outcome = .ok g
        ∧ g.slotNames = ["n", "x", "y", "_breqz"] ∧ g.hasLoop = true := ⟨_, rfl, rfl, rfl⟩
  obtain ⟨haccepts, hsame⟩ := @lowerFunction_renameVariables .rounds _ _ hinj hsentinel
  obtain ⟨g', hg'⟩ := haccepts.mpr ⟨g, hg⟩
  have hg'' := hsame g g' hg hg'
  refine ⟨g, g', hg, hg', hnames, ?_, hloop, ?_, ?_⟩
  · rw [hg'']
    show g.slotNames.map (Equiv.swap "n" "x") = _
    rw [hnames]
    decide
  · rw [hg'']
  · rw [hg'']

end CallFlow
