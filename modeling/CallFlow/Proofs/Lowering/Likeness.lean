/-
What lowering knows of names, tags and places.

Lowering tells names apart and recognises the sentinel; nothing else in a name matters to it. It
asks some tags to be right and reads no other, and a place only goes into an error. So a function
that lowers and a function like it, up to names that are told apart alike (`Matching`), come to
the same operations, the same guard and the same returned slot, provided that the tags of the
second are right (`LoweredParts.of_alike`).

Likeness can be read from either side (`Alike.symm`), so every lemma here goes in one direction
only. The order is that of lowering itself: the table, operands, initial values, calls, the guard,
and then the whole body.
-/
import CallFlow.Proofs.Lowering.LoopCode

namespace CallFlow

open CallFlow.Tree (Tagged)

-- ================================================ statement vocabulary

/-- Names of two functions that are told apart alike and are the
sentinel alike. -/
structure Matching (R : String → String → Prop) : Prop where
  eq_iff : ∀ {a a' b b' : String}, R a b → R a' b' → (a = a' ↔ b = b')
  sentinel : ∀ {a b : String}, R a b → (a = Tree.sentinelName ↔ b = Tree.sentinelName)

/-- A matching of names can be read in the other direction. -/
theorem Matching.symm {R : String → String → Prop} (h : Matching R) : Matching (flip R) :=
  ⟨fun hab hab' => (h.eq_iff hab hab').symm, fun hab => (h.sentinel hab).symm⟩

/-- Every name matches itself. -/
theorem matching_eq : Matching (Eq : String → String → Prop) := by
  refine ⟨fun hab hab' => ?_, fun hab => ?_⟩
  · rw [hab, hab']
  · rw [hab]

namespace Tree

variable (R : String → String → Prop)

/-- Operands that are alike up to the name they refer to. -/
inductive OperandKind.Alike : OperandKind → OperandKind → Prop
  | reference {a b : String} (name : R a b) : Alike (.reference a) (.reference b)
  | integer (type : ValueType) (n : Int64) : Alike (.integer type n) (.integer type n)
  | float (x : Binary64) : Alike (.float x) (.float x)
  | void : Alike .void .void

/-- Operands that are both malformed, or are alike. -/
def Operand.Alike (o o' : Operand) : Prop :=
  Option.Rel (OperandKind.Alike R) o.kind.toOption o'.kind.toOption

/-- Variables that are alike up to names. -/
structure Variable.Alike (v v' : Variable) : Prop where
  name : R v.id.name v'.id.name
  type : v.type = v'.type
  init : Option.Rel (Operand.Alike R) v.init v'.init

/-- Calls of one function that are alike up to the names of variables. -/
structure Call.Alike (c c' : Call) : Prop where
  target : R c.target.name c'.target.name
  callee : c.callee.name = c'.callee.name
  args : List.Forall₂ (Operand.Alike R) c.args c'.args

/-- Functions of one name that are alike up to the names of variables.
Of calls beside a loop node, which are never lowered, it only matters
whether there are any. -/
structure Function.Alike (f f' : Function) : Prop where
  name : f.name = f'.name
  params : List.Forall₂ (fun p p' => R p.id.name p'.id.name ∧ p.type = p'.type) f.params f'.params
  result : f.result = f'.result
  vars : List.Forall₂ (Variable.Alike R) f.body.vars f'.body.vars
  loop : Option.Rel (fun l l' => R l.condition.name l'.condition.name) f.body.loop f'.body.loop
  calls : List.Forall₂ (Call.Alike R) f.body.allCalls f'.body.allCalls
  stray : f.body.calls = [] ↔ f'.body.calls = []

/-- The tags that lowering asks for in a function are right. -/
structure Function.RightlyTagged (f : Function) : Prop where
  params : ∀ p ∈ f.params, Tagged p
  body : Tagged f.body
  vars : ∀ v ∈ f.body.vars, Tagged v
  loop : ∀ l ∈ f.body.loop, Tagged l
  calls : ∀ c ∈ f.body.allCalls, Tagged c

end Tree

-- ================================================= reading it backwards

theorem rel_symm {α β : Type} {S : α → β → Prop} {T : β → α → Prop} (h : ∀ {a b}, S a b → T b a)
    {x : Option α} {y : Option β} (hxy : Option.Rel S x y) : Option.Rel T y x := by
  cases hxy with
  | some hab => exact .some (h hab)
  | none => exact .none

theorem forall₂_symm {α β : Type} {S : α → β → Prop} {T : β → α → Prop}
    (h : ∀ {a b}, S a b → T b a) {as : List α} {bs : List β} (hab : List.Forall₂ S as bs) :
    List.Forall₂ T bs as :=
  (hab.imp fun _ _ => h).flip

namespace Tree

variable {R : String → String → Prop}

/-- Operands of like kinds are alike in both directions. The following
lemmas say so of every kind of node, up to functions. -/
theorem OperandKind.Alike.symm {k k' : OperandKind} (h : k.Alike R k') : k'.Alike (flip R) k := by
  cases h with
  | reference name => exact .reference name
  | integer type n => exact .integer type n
  | float x => exact .float x
  | void => exact .void

theorem Operand.Alike.symm {o o' : Operand} (h : o.Alike R o') : o'.Alike (flip R) o :=
  rel_symm OperandKind.Alike.symm h

theorem Variable.Alike.symm {v v' : Variable} (h : v.Alike R v') : v'.Alike (flip R) v :=
  ⟨h.name, h.type.symm, rel_symm Operand.Alike.symm h.init⟩

theorem Call.Alike.symm {c c' : Call} (h : c.Alike R c') : c'.Alike (flip R) c :=
  ⟨h.target, h.callee.symm, forall₂_symm Operand.Alike.symm h.args⟩

theorem Function.Alike.symm {f f' : Function} (h : f.Alike R f') : f'.Alike (flip R) f where
  name := h.name.symm
  params := forall₂_symm (fun hp => ⟨hp.1, hp.2.symm⟩) h.params
  result := h.result.symm
  vars := forall₂_symm Variable.Alike.symm h.vars
  loop := rel_symm (fun hl => hl) h.loop
  calls := forall₂_symm Call.Alike.symm h.calls
  stray := h.stray.symm

end Tree

-- ========================================================== the tables

section Tables

variable {R : String → String → Prop}

/-- Declarations that are alike up to names. -/
structure Declaration.Alike (R : String → String → Prop) (d d' : Declaration) : Prop where
  name : R d.name d'.name
  type : d.type = d'.type
  origin : d.origin = d'.origin

/-- Tables whose names match one by one, with the same slots for names
that match. -/
structure SymbolTable.Alike (R : String → String → Prop) (t t' : SymbolTable) : Prop where
  names : List.Forall₂ R t.names t'.names
  lookup? : ∀ {a b}, R a b → t.lookup? a = t'.lookup? b

theorem SymbolTable.alike_empty : SymbolTable.Alike R {} {} where
  names := .nil
  lookup? _ := rfl

/-- Declarations that are alike keep tables alike: each name that
matches one of the new names matches no other. -/
theorem SymbolTable.Alike.push {t t' : SymbolTable} {d d' : Declaration} (hR : Matching R)
    (h : t.Alike R t') (hd : d.Alike R d') : (t.push d).Alike R (t'.push d') where
  names := List.rel_append h.names (.cons hd.name .nil)
  lookup? {a b} hab := by
    have hsize : t.size = t'.size := h.names.length_eq
    have hslot : d.slot t.size = d'.slot t'.size := by
      unfold Declaration.slot
      rw [hsize, hd.type, hd.origin]
    rw [lookup?_push, lookup?_push, hslot, h.lookup? hab]
    simp only [hR.eq_iff hab hd.name]

/-- Tables stay alike under like declarations, in order. -/
theorem SymbolTable.Alike.pushAll {t t' : SymbolTable} {ds ds' : List Declaration}
    (hR : Matching R) (h : t.Alike R t') (hds : List.Forall₂ (Declaration.Alike R) ds ds') :
    (t.pushAll ds).Alike R (t'.pushAll ds') := by
  induction hds generalizing t t' with
  | nil => exact h
  | cons hd _ ih => exact ih (h.push hR hd)

/-- Distinct names match distinct names. -/
theorem Matching.nodup (hR : Matching R) {as bs : List String} (h : List.Forall₂ R as bs)
    (has : as.Nodup) : bs.Nodup := by
  induction h with
  | nil => exact List.nodup_nil
  | @cons a b as bs hab hrest ih =>
    obtain ⟨ha, has⟩ := List.nodup_cons.mp has
    refine List.nodup_cons.mpr ⟨fun hb => ha ?_, ih has⟩
    obtain ⟨a', ha', hab'⟩ := exists_left_of_forall₂ hrest hb
    rwa [(hR.eq_iff hab hab').mpr rfl]

end Tables

-- ==================================================== the declarations

/-- Erasing the first member that a test picks, on both sides. -/
theorem forall₂_eraseP {α β : Type} {S : α → β → Prop} {p : α → Bool} {q : β → Bool}
    (hpq : ∀ {a b}, S a b → p a = q b) {as : List α} {bs : List β} (h : List.Forall₂ S as bs) :
    List.Forall₂ S (as.eraseP p) (bs.eraseP q) := by
  induction h with
  | nil => exact .nil
  | @cons a b as bs hab hrest ih =>
    rw [List.eraseP_cons, List.eraseP_cons, hpq hab]
    cases q b with
    | true => exact hrest
    | false => exact .cons hab ih

/-- The first member that a test picks, on both sides. -/
theorem rel_find? {α β : Type} {S : α → β → Prop} {p : α → Bool} {q : β → Bool}
    (hpq : ∀ {a b}, S a b → p a = q b) {as : List α} {bs : List β} (h : List.Forall₂ S as bs) :
    Option.Rel S (as.find? p) (bs.find? q) := by
  induction h with
  | nil => exact .none
  | @cons a b as bs hab _ ih =>
    rw [List.find?_cons, List.find?_cons, hpq hab]
    cases q b with
    | true => exact .some hab
    | false => exact ih

theorem any_eq_of_forall₂ {α β : Type} {S : α → β → Prop} {p : α → Bool} {q : β → Bool}
    (hpq : ∀ {a b}, S a b → p a = q b) {as : List α} {bs : List β} (h : List.Forall₂ S as bs) :
    as.any p = bs.any q := by
  induction h with
  | nil => rfl
  | cons hab _ ih => rw [List.any_cons, List.any_cons, hpq hab, ih]

section Declarations

variable {R : String → String → Prop} {f f' : Tree.Function}

/-- Of two variables that are alike both are the sentinel or none is,
since a matching relates that name to itself only. -/
theorem Tree.Variable.Alike.isSentinel {v v' : Tree.Variable} (hR : Matching R)
    (h : v.Alike R v') : v.isSentinel = v'.isSentinel := by
  rw [Bool.eq_iff_iff]
  unfold Tree.Variable.isSentinel
  rw [beq_iff_eq, beq_iff_eq]
  exact hR.sentinel h.name

namespace Tree.Function.Alike

/-- Functions that are alike both have a loop or both have none. -/
theorem loop_isNone (h : f.Alike R f') : f.body.loop.isNone = f'.body.loop.isNone := by
  have hloop := h.loop
  revert hloop
  cases f.body.loop <;> cases f'.body.loop <;> intro hloop <;> cases hloop <;> rfl

/-- Functions that are alike agree on whether they have a sentinel to
hold back. -/
theorem hasSentinel_eq (hR : Matching R) (h : f.Alike R f') :
    hasSentinel f.body = hasSentinel f'.body := by
  have hany := any_eq_of_forall₂ (fun hv => Tree.Variable.Alike.isSentinel hR hv) h.vars
  unfold hasSentinel
  rw [h.loop_isNone]
  exact congrArg _ hany

/-- Variables are declared alike, in place and held back. The sentinel
is told apart by its name only, and that is what a matching preserves. -/
theorem variableDeclarations (hR : Matching R) (h : f.Alike R f') :
    List.Forall₂ (Declaration.Alike R) f.variableDeclarations f'.variableDeclarations := by
  have hone : ∀ origin {v v' : Tree.Variable}, v.Alike R v' →
      (v.declaration origin).Alike R (v'.declaration origin) := by
    intro origin v v' hv
    exact ⟨hv.name, hv.type, rfl⟩
  unfold Tree.Function.variableDeclarations declarationsInPlace declaredInPlace heldBack
  rw [h.hasSentinel_eq hR]
  refine List.rel_append ?_ ?_
  · rw [List.forall₂_map_left_iff, List.forall₂_map_right_iff]
    refine List.Forall₂.imp (fun _ _ => hone .localVariable) ?_
    split
    · exact forall₂_eraseP (fun hv => hv.isSentinel hR) h.vars
    · exact h.vars
  · rw [List.forall₂_map_left_iff, List.forall₂_map_right_iff]
    refine List.Forall₂.imp (fun _ _ => hone .sentinel) ?_
    split
    · have hfind := rel_find? (fun hv => Tree.Variable.Alike.isSentinel hR hv) h.vars
      revert hfind
      cases f.body.vars.find? Tree.Variable.isSentinel <;>
        cases f'.body.vars.find? Tree.Variable.isSentinel <;> intro hfind <;> cases hfind
      · exact .nil
      · next hv => exact .cons hv .nil
    · exact .nil

/-- The declarations of functions that are alike are alike in order,
those of the parameters first. -/
theorem declarations (hR : Matching R) (h : f.Alike R f') :
    List.Forall₂ (Declaration.Alike R) f.declarations f'.declarations := by
  refine List.rel_append ?_ (h.variableDeclarations hR)
  rw [List.forall₂_map_left_iff, List.forall₂_map_right_iff]
  exact h.params.imp fun _ _ hp => ⟨hp.1, hp.2, rfl⟩

/-- The tables of functions that are alike are alike. -/
theorem layout (hR : Matching R) (h : f.Alike R f') : f.layout.Alike R f'.layout :=
  SymbolTable.alike_empty.pushAll hR (h.declarations hR)

/-- Names that are related have the same slot in the layouts of both
functions. -/
theorem lookup? (hR : Matching R) (h : f.Alike R f') {a b : String} (hab : R a b) :
    f.layout.lookup? a = f'.layout.lookup? b :=
  (h.layout hR).lookup? hab

theorem declaredNames (h : f.Alike R f') :
    List.Forall₂ R f.declaredNames f'.declaredNames := by
  refine List.rel_append ?_ ?_
  · rw [List.forall₂_map_left_iff, List.forall₂_map_right_iff]
    exact h.params.imp fun _ _ hp => hp.1
  · rw [List.forall₂_map_left_iff, List.forall₂_map_right_iff]
    exact h.vars.imp fun _ _ hv => hv.name

/-- What makes a function declare its slots is preserved: tags are asked
of both, types are the same, and names clash where their counterparts
do. -/
theorem declares (hR : Matching R) (h : f.Alike R f') (htags : f'.RightlyTagged)
    (hf : f.Declares) : f'.Declares := by
  refine ⟨fun p' hp' => ⟨htags.params p' hp', ?_⟩, fun v' hv' => ⟨htags.vars v' hv', ?_⟩,
    hR.nodup h.declaredNames hf.nodup⟩
  · obtain ⟨p, hp, -, htype⟩ := exists_left_of_forall₂ h.params hp'
    rw [← htype]
    exact (hf.params p hp).2
  · obtain ⟨v, hv, hlike⟩ := exists_left_of_forall₂ h.vars hv'
    rw [← hlike.type]
    exact (hf.vars v hv).2

end Tree.Function.Alike

end Declarations

-- ====================================================== the statements

section Statements

variable {R : String → String → Prop} {t t' : SymbolTable} {functions : FunctionTable}

/-- An operand that is like a well-formed one is well formed. -/
theorem Tree.Operand.Alike.kind {o o' : Tree.Operand} (h : o.Alike R o') {k : Tree.OperandKind}
    (hk : o.kind = .ok k) : ∃ k', o'.kind = .ok k' ∧ k.Alike R k' := by
  unfold Tree.Operand.Alike at h
  rw [hk] at h
  cases hk' : o'.kind with
  | error e =>
    rw [hk'] at h
    cases h
  | ok k' =>
    rw [hk'] at h
    cases h with
    | some hkind => exact ⟨k', rfl, hkind⟩

variable (ht : t.Alike R t')

include ht

/-- An operand is lowered to the value that its counterpart is lowered
to. -/
theorem Lowered.of_alike {o o' : Tree.Operand} {v : Option Value} (ho : o.Alike R o')
    (h : Lowered t o v) : Lowered t' o' v := by
  cases h with
  | reference kind bound =>
    obtain ⟨_, hk', hlike⟩ := ho.kind kind
    cases hlike with
    | reference name =>
      rw [ht.lookup? name] at bound
      exact .reference hk' bound
  | i32 kind fits =>
    obtain ⟨_, hk', hlike⟩ := ho.kind kind
    cases hlike
    exact .i32 hk' fits
  | i64 kind wide =>
    obtain ⟨_, hk', hlike⟩ := ho.kind kind
    cases hlike
    exact .i64 hk' wide
  | f64 kind =>
    obtain ⟨_, hk', hlike⟩ := ho.kind kind
    cases hlike
    exact .f64 hk'
  | void kind =>
    obtain ⟨_, hk', hlike⟩ := ho.kind kind
    cases hlike
    exact .void hk'

/-- Initial values are lowered to the same operations: they have slots
of one number and constants of one value. Variables without an initial
value are passed over on both sides. -/
theorem LoweredInits.of_alike {vs vs' : List Tree.Variable} {ops : List Operation}
    (hvs : List.Forall₂ (Tree.Variable.Alike R) vs vs') (h : LoweredInits t vs ops) :
    LoweredInits t' vs' ops := by
  induction hvs generalizing ops with
  | nil =>
    cases h
    exact .nil
  | @cons v v' vs vs' hv _ ih =>
    have hinit := hv.init
    cases h with
    | skip init rest =>
      rw [init] at hinit
      cases hinit' : v'.init with
      | none => exact .skip hinit' (ih rest)
      | some o' =>
        rw [hinit'] at hinit
        cases hinit
    | init init bound operand type rest =>
      rw [init] at hinit
      cases hinit' : v'.init with
      | none =>
        rw [hinit'] at hinit
        cases hinit
      | some o' =>
        rw [hinit'] at hinit
        cases hinit with
        | some ho =>
          rw [ht.lookup? hv.name] at bound
          exact .init hinit' bound (operand.of_alike ht ho) type (ih rest)

/-- Operands in order are lowered to the same values as their
counterparts. -/
theorem forall₂_lowered_of_alike {os os' : List Tree.Operand} {vs : List (Option Value)}
    (hos : List.Forall₂ (Tree.Operand.Alike R) os os') (h : List.Forall₂ (Lowered t) os vs) :
    List.Forall₂ (Lowered t') os' vs := by
  induction hos generalizing vs with
  | nil =>
    cases h
    exact .nil
  | cons ho _ ih =>
    cases h with
    | cons hv hvs => exact .cons (hv.of_alike ht ho) (ih hvs)

/-- A call is lowered to the operation of its counterpart, as the callee
keeps its name. -/
theorem LoweredCall.of_alike {c c' : Tree.Call} {op : Operation} (hc : c.Alike R c')
    (htag : Tagged c') (h : LoweredCall functions t c op) : LoweredCall functions t' c' op := by
  cases h with
  | mk tagged args bound writable callee types result =>
    rw [ht.lookup? hc.target] at bound
    rw [hc.callee] at callee ⊢
    exact .mk htag (forall₂_lowered_of_alike ht hc.args args) bound writable callee types result

/-- Calls in order are lowered to the operations of their counterparts. -/
theorem forall₂_loweredCall_of_alike {cs cs' : List Tree.Call} {ops : List Operation}
    (hcs : List.Forall₂ (Tree.Call.Alike R) cs cs') (htags : ∀ c ∈ cs', Tagged c)
    (h : List.Forall₂ (LoweredCall functions t) cs ops) :
    List.Forall₂ (LoweredCall functions t') cs' ops := by
  induction hcs generalizing ops with
  | nil =>
    cases h
    exact .nil
  | cons hc _ ih =>
    obtain ⟨htag, htags⟩ := List.forall_mem_cons.mp htags
    cases h with
    | cons hop hops => exact .cons (hop.of_alike ht hc htag) (ih htags hops)

end Statements

-- ============================================================ the body

section Bodies

variable {R : String → String → Prop} {f f' : Tree.Function}

/-- The sentinel matches no name but itself, so it has the same slot on
both sides. -/
theorem Tree.Function.Alike.lookup?_sentinel (hR : Matching R) (h : f.Alike R f')
    (hmem : Tree.sentinelName ∈ f.layout.names) :
    f.layout.lookup? Tree.sentinelName = f'.layout.lookup? Tree.sentinelName := by
  rw [Tree.Function.mem_names_layout] at hmem
  obtain ⟨b, hb, hab⟩ := exists_right_of_forall₂ h.declaredNames hmem
  have hname : b = Tree.sentinelName := (hR.sentinel hab).mp rfl
  rw [h.lookup? hR hab, hname]

/-- Both functions are guarded, by names that match, or none of them is.
With a loop node it is the condition of the loop, and without one the
sentinel, if it is declared. -/
theorem Tree.Function.Alike.guard? (hR : Matching R) (h : f.Alike R f') :
    f.body.guard? = none ∧ f'.body.guard? = none
      ∨ ∃ a b, f.body.guard? = some a ∧ f'.body.guard? = some b
          ∧ f.layout.lookup? a = f'.layout.lookup? b := by
  have hloop := h.loop
  cases hl : f.body.loop with
  | some l =>
    cases hl' : f'.body.loop with
    | none =>
      rw [hl, hl'] at hloop
      cases hloop
    | some l' =>
      rw [hl, hl'] at hloop
      cases hloop with
      | some hname =>
        refine .inr ⟨l.condition.name, l'.condition.name, ?_, ?_, h.lookup? hR hname⟩
        · rw [Tree.Body.guard?, hl]
        · rw [Tree.Body.guard?, hl']
  | none =>
    cases hl' : f'.body.loop with
    | some l' =>
      rw [hl, hl'] at hloop
      cases hloop
    | none =>
      have hguard := guard?_of_no_loop hl
      have hguard' := guard?_of_no_loop hl'
      by_cases hs : hasSentinel f'.body = true
      · have hsame : hasSentinel f.body = true := (h.hasSentinel_eq hR).trans hs
        rw [if_pos hsame] at hguard
        rw [if_pos hs] at hguard'
        exact .inr ⟨_, _, hguard, hguard',
          h.lookup?_sentinel hR (Tree.Function.sentinelName_mem_layout hsame)⟩
      · rw [h.hasSentinel_eq hR, if_neg hs] at hguard
        rw [if_neg hs] at hguard'
        exact .inl ⟨hguard, hguard'⟩

/-- The slot that guards the loop is the same, whichever of the two
functions it is looked up in. -/
theorem Guarded.of_alike (hR : Matching R) (h : f.Alike R f') (htags : f'.RightlyTagged)
    {guard : Option Slot} (hg : Guarded f guard) : Guarded f' guard := by
  refine ⟨fun l' hl' => ⟨htags.loop l' hl', ?_⟩, ?_, fun b hb => ?_⟩
  · have hloop := h.loop
    rw [hl'] at hloop
    cases hl : f.body.loop with
    | none =>
      rw [hl] at hloop
      cases hloop
    | some l => exact h.stray.mp (hg.loop l hl).2
  · rcases h.guard? hR with ⟨hnone, hnone'⟩ | ⟨a, b, ha, hb, hlookup⟩
    · rw [hg.slot, hnone, hnone']
      rfl
    · rw [hg.slot, ha, hb]
      exact hlookup
  · rcases h.guard? hR with ⟨_, hnone'⟩ | ⟨a, b', ha, hb', hlookup⟩
    · rw [hnone'] at hb
      cases hb
    · rw [hb'] at hb
      cases hb
      rw [← hlookup]
      exact hg.type a ha

/-- Both functions return what a last call assigns. -/
theorem Tree.Function.Alike.output? (hR : Matching R) (h : f.Alike R f') :
    f.body.output?.bind f.layout.lookup? = f'.body.output?.bind f'.layout.lookup? := by
  have hcalls := List.forall₂_reverse_iff.mpr h.calls
  unfold Tree.Body.output?
  rw [← List.head?_reverse, ← List.head?_reverse]
  revert hcalls
  generalize f.body.allCalls.reverse = cs
  generalize f'.body.allCalls.reverse = cs'
  intro hcalls
  cases hcalls with
  | nil => rfl
  | cons hc _ => exact h.lookup? hR hc.target

/-- What lowers asks for right tags. -/
theorem LoweredParts.rightlyTagged {functions : FunctionTable} {inits calls : List Operation}
    {guard : Option Slot} {slot : Slot} (h : LoweredParts functions f inits calls guard slot) :
    f.RightlyTagged where
  params p hp := (h.declares.params p hp).1
  body := h.tagged
  vars v hv := (h.declares.vars v hv).1
  loop l hl := (h.guarded.loop l hl).1
  calls c hc := by
    obtain ⟨op, -, hop⟩ := exists_right_of_forall₂ h.calls hc
    cases hop with
    | mk tagged => exact tagged

/-- A function that is like one that lowers, and is tagged rightly,
comes to the same parts. -/
theorem LoweredParts.of_alike (hR : Matching R) (hlike : f.Alike R f')
    (htags : f'.RightlyTagged) {functions : FunctionTable} {inits calls : List Operation}
    {guard : Option Slot} {slot : Slot} (h : LoweredParts functions f inits calls guard slot) :
    LoweredParts functions f' inits calls guard slot where
  tagged := htags.body
  declares := hlike.declares hR htags h.declares
  inits := h.inits.of_alike (hlike.layout hR) hlike.vars
  guarded := h.guarded.of_alike hR hlike htags
  calls := forall₂_loweredCall_of_alike (hlike.layout hR) hlike.calls htags.calls h.calls
  output := by rw [← hlike.output? hR, h.output]
  result := by rw [h.result, hlike.result]

/-- The functions that two declarations become are the same but for the
names of the slots. -/
theorem loweredFunction_of_alike (hR : Matching R) (h : f.Alike R f')
    (inits calls : List Operation) (guard : Option Slot) (slot : Slot) :
    loweredFunction f' inits calls guard slot
      = { loweredFunction f inits calls guard slot with slotNames := f'.layout.names } := by
  have hparams : f'.params.map Tree.Param.type = f.params.map Tree.Param.type := by
    have hall := forall₂_symm (T := fun p' p => p'.type = p.type) (fun hp => hp.2.symm) h.params
    rwa [← List.forall₂_eq_eq_eq, List.forall₂_map_left_iff, List.forall₂_map_right_iff]
  have hlocals : f'.variableDeclarations.map Declaration.type
      = f.variableDeclarations.map Declaration.type := by
    have hall := forall₂_symm (T := fun d' d => d'.type = d.type) (fun hd => hd.type.symm)
      (h.variableDeclarations hR)
    rwa [← List.forall₂_eq_eq_eq, List.forall₂_map_left_iff, List.forall₂_map_right_iff]
  unfold loweredFunction
  rw [hparams, hlocals, ← h.name, ← h.result]

/-- Lowering accepts a function that is like an accepted one and is
tagged rightly, and gives the same function but for the names of the
slots. -/
theorem outcome_lowerFunction_of_alike (hR : Matching R) (h : f.Alike R f')
    (htags : f'.RightlyTagged) {functions : FunctionTable} {g : Function}
    (hg : (lowerFunction functions f).outcome = .ok g) :
    (lowerFunction functions f').outcome = .ok { g with slotNames := f'.layout.names } := by
  obtain ⟨inits, calls, guard, slot, hparts, rfl⟩ := outcome_lowerFunction_eq_ok.mp hg
  exact outcome_lowerFunction_eq_ok.mpr ⟨inits, calls, guard, slot,
    hparts.of_alike hR h htags, (loweredFunction_of_alike hR h inits calls guard slot).symm⟩

end Bodies

end CallFlow
