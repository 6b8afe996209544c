/-
Where a name that is declared again is reported.

A table refuses a name that it has, and the refusal stands where the name is written. So a list of
declarations fails at the first site that repeats the name of an earlier one
(`SymbolTable.declareAll_eq_error`). Where tags and types are right nothing else can fail before,
and the fault of a function is the first repetition in the order in which its names are declared
(`outcome_lowerBody_of_firstRepeat`).

# The order that counts

Names are declared in the order of their slots. That is the order in which they are written,
except that a body that loops under its sentinel holds back the first declaration of it. Moving
one site to the end changes the first repetition only if that has the name of the site that is
moved (`FirstRepeat.move`). Every other repetition is therefore reported where it happens; of two
variables with the name of the sentinel the first is blamed.
-/
import Mathlib.Data.List.Induction
import CallFlow.Proofs.Lowering.Declarations

namespace CallFlow

open CallFlow.Tree (Tagged sentinelName)

-- ================================================== names where they stand

/-- A name and the place that it is written at. -/
@[ext]
structure Site where
  name : String
  span : Option Span
  deriving DecidableEq

/-- The first of several sites that has the name of an earlier one. -/
def FirstRepeat (sites : List Site) (s : Site) : Prop :=
  ∃ before after, sites = before ++ s :: after ∧ (before.map Site.name).Nodup
    ∧ s.name ∈ before.map Site.name

section Sites

variable {sites : List Site} {s : Site}

/-- The first repeat of a list is that of every longer one: later names
come too late to be the first. -/
theorem FirstRepeat.append (h : FirstRepeat sites s) (more : List Site) :
    FirstRepeat (sites ++ more) s := by
  obtain ⟨before, after, rfl, hnodup, hmem⟩ := h
  exact ⟨before, after ++ more, by simp, hnodup, hmem⟩

/-- A list that goes on behind a repetition is not without repetitions. -/
theorem not_nodup_of_repeat {before : List Site} (h : s.name ∈ before.map Site.name)
    (after : List Site) : ¬ ((before ++ s :: after).map Site.name).Nodup := by
  intro hnodup
  rw [List.map_append, List.nodup_append] at hnodup
  exact hnodup.2.2 s.name h s.name List.mem_cons_self rfl

/-- There is only one first repeat. Two of them would each come before
the other. -/
theorem FirstRepeat.unique {s' : Site} (h : FirstRepeat sites s) (h' : FirstRepeat sites s') :
    s' = s := by
  obtain ⟨before, after, rfl, hnodup, hmem⟩ := h
  obtain ⟨before', after', hsplit, hnodup', hmem'⟩ := h'
  rcases List.append_eq_append_iff.mp hsplit with ⟨c, rfl, hc⟩ | ⟨c, rfl, hc⟩
  · cases c with
    | nil => exact (List.cons.inj hc).1.symm
    | cons r c =>
      obtain ⟨rfl, -⟩ := List.cons.inj hc
      exact absurd hnodup' (not_nodup_of_repeat hmem c)
  · cases c with
    | nil => exact (List.cons.inj hc).1
    | cons r c =>
      obtain ⟨rfl, -⟩ := List.cons.inj hc
      exact absurd hnodup (not_nodup_of_repeat hmem' c)

/-- Where a name occurs twice, one site is the first to repeat a name.
The induction is over the sites from the end. -/
theorem exists_firstRepeat (h : ¬ (sites.map Site.name).Nodup) :
    ∃ s, ∀ r, FirstRepeat sites r ↔ r = s := by
  have hexists : ∃ s, FirstRepeat sites s := by
    induction sites using List.reverseRecOn with
    | nil => exact absurd List.nodup_nil h
    | append_singleton sites last ih =>
      by_cases hnodup : (sites.map Site.name).Nodup
      · -- nothing repeats in front of the last site, so that one does
        refine ⟨last, sites, [], rfl, hnodup, ?_⟩
        by_contra hfresh
        apply h
        rw [List.map_append]
        exact List.concat_eq_append ▸ hnodup.concat hfresh
      · obtain ⟨s, hs⟩ := ih hnodup
        exact ⟨s, hs.append [last]⟩
  obtain ⟨s, hs⟩ := hexists
  refine ⟨s, fun r => ⟨hs.unique, ?_⟩⟩
  intro hr
  rwa [hr]

/-- Moving a site to the end keeps the first repetition, if that is of
another name. The sites in front of the repetition may lose the one that
is moved, but they still have the name that is repeated. -/
theorem FirstRepeat.move {first rest : List Site} {v : Site}
    (h : FirstRepeat (first ++ v :: rest) s) (hne : s.name ≠ v.name) :
    FirstRepeat (first ++ rest ++ [v]) s := by
  obtain ⟨before, after, hsplit, hnodup, hmem⟩ := h
  rcases List.append_eq_append_iff.mp hsplit with ⟨c, rfl, hc⟩ | ⟨c, rfl, hc⟩
  · cases c with
    | nil =>
      cases hc
      exact absurd rfl hne
    | cons v' c =>
      -- the repetition stands behind the moved site, whose name it does not need
      obtain ⟨rfl, rfl⟩ := List.cons.inj hc
      refine ⟨first ++ c, after ++ [v], by simp, ?_, ?_⟩
      · apply List.Nodup.sublist _ hnodup
        exact ((List.sublist_cons_self v c).append_left first).map Site.name
      · simp only [List.map_append, List.map_cons, List.mem_append, List.mem_cons] at hmem ⊢
        rcases hmem with hmem | heq | hmem
        · exact .inl hmem
        · exact absurd heq hne
        · exact .inr hmem
  · cases c with
    | nil =>
      cases hc
      exact absurd rfl hne
    | cons s' c =>
      obtain ⟨rfl, rfl⟩ := List.cons.inj hc
      exact ⟨before, c ++ rest ++ [v], by simp, hnodup, hmem⟩

end Sites

-- ====================================================== declaring in order

namespace SymbolTable

/-- The site of a request. -/
def Request.site (r : Request) : Site where
  name := r.name
  span := r.span

/-- Declares in order, up to the first name that is taken. -/
def declareAll (t : SymbolTable) : List Request → Except Error SymbolTable
  | [] => .ok t
  | r :: rs =>
    match t.answer r with
    | (.error e, _) => .error e
    | (.ok _, t') => t'.declareAll rs

/-- To declare two lists is to declare the one and then, if nothing
failed, the other. -/
theorem declareAll_append (t : SymbolTable) (rs rs' : List Request) :
    t.declareAll (rs ++ rs') = t.declareAll rs >>= fun t' => t'.declareAll rs' := by
  induction rs generalizing t with
  | nil => rfl
  | cons r rs ih =>
    rw [List.cons_append, declareAll, declareAll]
    match t.answer r with
    | (.error _, _) => rfl
    | (.ok _, t') => exact ih t'

/-- Declaring fails at the first site whose name is in the table or was
declared before it. The induction is over the requests. Each one that is
granted joins the names that later ones are compared with. -/
theorem declareAll_eq_error {t : SymbolTable} {ds : List Declaration} (ht : t.InStep ds)
    {rs : List Request} {before after : List Site} {s : Site}
    (hsites : rs.map Request.site = before ++ s :: after)
    (hnodup : (t.names ++ before.map Site.name).Nodup)
    (hmem : s.name ∈ t.names ++ before.map Site.name) :
    t.declareAll rs = .error (.duplicateDeclaration s.name s.span) := by
  induction rs generalizing t ds before with
  | nil => simp at hsites
  | cons r rs ih =>
    rw [List.map_cons] at hsites
    rw [declareAll, ht.answer_eq]
    cases before with
    | nil =>
      obtain ⟨rfl, -⟩ := List.cons.inj hsites
      have hr : r.name ∈ t.names := by
        rw [List.map_nil, List.append_nil] at hmem
        exact hmem
      rw [if_pos hr]
      rfl
    | cons b before =>
      obtain ⟨rfl, hrest⟩ := List.cons.inj hsites
      -- the names of the table and those before the fault stay what they are together
      obtain ⟨hfresh, hnodup'⟩ := nodup_push_append.mpr hnodup
      have hr : r.name ∉ t.names := hfresh
      rw [if_neg hr]
      apply ih (ht.push hfresh) hrest hnodup'
      rw [names_push, List.append_assoc]
      exact hmem

end SymbolTable

open SymbolTable (Request declareAll declareAll_append)

-- =========================================== the declarations of a function

/-- The site of an identifier. -/
def Tree.Identifier.site (id : Tree.Identifier) : Site where
  name := id.name
  span := id.span

/-- What a parameter asks for. -/
def Tree.Param.request (p : Tree.Param) : Request where
  declaration := p.declaration
  span := p.id.span

/-- What a variable asks for. -/
def Tree.Variable.request (origin : Origin) (v : Tree.Variable) : Request where
  declaration := v.declaration origin
  span := v.id.span

/-- Declaring one name is the first step of declaring several. -/
theorem outcome_declareSlot_bind (t : SymbolTable) (id : Tree.Identifier) (type : ValueType)
    (origin : Origin) (rs : List Request) :
    ((declareSlot t id type origin).outcome >>= fun t' => t'.declareAll rs)
      = t.declareAll (⟨⟨id.name, type, origin⟩, id.span⟩ :: rs) := by
  unfold declareSlot
  rw [SymbolTable.declareAll, SymbolTable.answer]
  match t.declareAs origin id.name type id.span with
  | (.error _, _) => rfl
  | (.ok _, _) => rfl

/-- Parameters that are tagged and storable can only fail on a name, and
are then the same requests to the table in order. -/
theorem outcome_declareParams {ps : List Tree.Param} (h : ∀ p ∈ ps, Tagged p ∧ p.type ≠ .void)
    (t : SymbolTable) :
    (declareParams t ps).outcome = t.declareAll (ps.map Tree.Param.request) := by
  induction ps generalizing t with
  | nil => rfl
  | cons p ps ih =>
    obtain ⟨⟨htag, htype⟩, hps⟩ := List.forall_mem_cons.mp h
    have hkind : expectKind p = .ok () := expectKind_eq_ok.mpr htag
    have hstorable : requireStorable p.type "parameter" p.id.span = .ok () :=
      requireStorable_eq_ok.mpr htype
    simp only [declareParams, Traced.outcome_bind, Traced.outcome_ofExcept, hkind, hstorable,
      ih hps]
    exact outcome_declareSlot_bind t p.id p.type .parameter _

/-- Variables that are tagged and storable are requests too, apart from
the one that is held back. -/
theorem outcome_declareVariables {vs : List Tree.Variable}
    (h : ∀ v ∈ vs, Tagged v ∧ v.type ≠ .void) (t : SymbolTable) (holdBack : Bool) :
    (declareVariables t holdBack vs).outcome
      = (t.declareAll ((declaredInPlace holdBack vs).map (Tree.Variable.request .localVariable)))
        >>= fun t' => pure (t', heldBack holdBack vs) := by
  induction vs generalizing t holdBack with
  | nil => cases holdBack <;> rfl
  | cons v vs ih =>
    obtain ⟨⟨htag, htype⟩, hvs⟩ := List.forall_mem_cons.mp h
    have hkind : expectKind v = .ok () := expectKind_eq_ok.mpr htag
    have hstorable : requireStorable v.type "local" v.id.span = .ok () :=
      requireStorable_eq_ok.mpr htype
    by_cases hs : (holdBack && v.isSentinel) = true
    · -- nothing is declared here, and nothing after it is held back
      obtain ⟨rfl, hv⟩ := Bool.and_eq_true_iff.mp hs
      have hcond : (true && v.id.name == sentinelName) = true := hs
      simp only [declareVariables, Traced.outcome_bind, Traced.outcome_ofExcept, hkind, hstorable,
        hcond, if_true, ih hvs, declaredInPlace_cons_of_sentinel hv, heldBack_cons_of_sentinel hv,
        bind_assoc, pure_bind]
      rfl
    · have hcond : (holdBack && v.id.name == sentinelName) = false := Bool.eq_false_iff.mpr hs
      simp only [declareVariables, Traced.outcome_bind, Traced.outcome_ofExcept, hkind, hstorable,
        hcond, Bool.false_eq_true, if_false, ih hvs, declaredInPlace_cons hs, heldBack_cons hs,
        List.map_cons, ← bind_assoc]
      have hslot := outcome_declareSlot_bind t v.id v.type .localVariable
        ((declaredInPlace holdBack vs).map (Tree.Variable.request .localVariable))
      exact congrArg (· >>= fun t' => pure (t', heldBack holdBack vs)) hslot

theorem outcome_declareSentinel (t : SymbolTable) (sentinel : Option Tree.Variable) :
    (declareSentinel t sentinel).outcome
      = t.declareAll (sentinel.toList.map (Tree.Variable.request .sentinel)) := by
  cases sentinel with
  | none => rfl
  | some v =>
    have hslot := outcome_declareSlot_bind t v.id v.type .sentinel []
    rw [← bind_pure (declareSentinel t (some v)).outcome]
    exact hslot

namespace Tree.Function

/-- What a function asks for, in the order of its slots. -/
def requests (f : Tree.Function) : List Request :=
  f.params.map Tree.Param.request
    ++ (declaredInPlace (hasSentinel f.body) f.body.vars).map
      (Tree.Variable.request .localVariable)
    ++ (heldBack (hasSentinel f.body) f.body.vars).toList.map (Tree.Variable.request .sentinel)

/-- The sites of the declarations, as they are written: the parameters
and then the variables. -/
def sites (f : Tree.Function) : List Site :=
  (f.params.map fun p => p.id.site) ++ f.body.vars.map fun v => v.id.site

/-- The sites of the declarations in the order of their slots: where a
body loops under its sentinel, the first variable of that name comes
last. -/
def sitesBySlot (f : Tree.Function) : List Site :=
  (f.params.map fun p => p.id.site)
    ++ (declaredInPlace (hasSentinel f.body) f.body.vars).map (fun v => v.id.site)
    ++ (heldBack (hasSentinel f.body) f.body.vars).toList.map fun v => v.id.site

/-- The sites at which slots are requested, in order of the requests. -/
theorem map_site_requests (f : Tree.Function) : f.requests.map Request.site = f.sitesBySlot := by
  unfold requests sitesBySlot
  rw [List.map_append, List.map_append, List.map_map, List.map_map, List.map_map]
  rfl

theorem names_sites (f : Tree.Function) : f.sites.map Site.name = f.declaredNames := by
  unfold sites declaredNames
  rw [List.map_append, List.map_map, List.map_map]
  rfl

/-- Ordered by slot, the sites are the same: only the sentinel moves to
the end. -/
theorem sitesBySlot_perm (f : Tree.Function) : f.sitesBySlot.Perm f.sites := by
  unfold sitesBySlot sites
  rw [List.append_assoc, ← List.map_append]
  apply List.Perm.append_left
  exact (declaredInPlace_append_heldBack (hasSentinel f.body) f.body.vars).map _

/-- The two orders have the same first repetition, unless a body loops
under its sentinel and the repetition is of that name. -/
theorem firstRepeat_sitesBySlot {f : Tree.Function} {s : Site} (hs : FirstRepeat f.sites s)
    (hname : hasSentinel f.body = true → s.name ≠ sentinelName) :
    FirstRepeat f.sitesBySlot s := by
  unfold sitesBySlot
  by_cases hsentinel : hasSentinel f.body = true
  · obtain ⟨before, v, after, hvars, hv, hbefore⟩ := exists_first_sentinel hsentinel
    have hne : s.name ≠ v.id.site.name := fun heq =>
      hname hsentinel (heq.trans (Tree.Variable.isSentinel_iff.mp hv))
    unfold sites at hs
    rw [hvars, List.map_append, List.map_cons, ← List.append_assoc] at hs
    rw [hsentinel, hvars, declaredInPlace_split hbefore hv, heldBack_split hbefore hv,
      List.map_append, ← List.append_assoc]
    exact hs.move hne
  · rw [Bool.eq_false_iff.mpr hsentinel]
    exact hs.append []

end Tree.Function

-- =============================================================== the body

section Body

variable {functions : FunctionTable} {f : Tree.Function}

/-- Where tags and types are right, the body of a function fails as its
declarations do. -/
theorem outcome_lowerBody_of_declareAll {e : Error} (hbody : Tagged f.body)
    (hparams : ∀ p ∈ f.params, Tagged p ∧ p.type ≠ .void)
    (hvars : ∀ v ∈ f.body.vars, Tagged v ∧ v.type ≠ .void)
    (he : declareAll {} f.requests = .error e) : (lowerBody functions f).outcome = .error e := by
  have hkind : expectKind f.body = .ok () := expectKind_eq_ok.mpr hbody
  rw [Tree.Function.requests, declareAll_append, declareAll_append, bind_eq_error,
    bind_eq_error] at he
  unfold lowerBody
  simp only [Traced.outcome_bind, Traced.outcome_ofExcept, hkind, outcome_declareParams hparams,
    outcome_declareVariables hvars, outcome_declareSentinel, bind_eq_error, bind_eq_ok]
  rcases he with (h₁ | ⟨t₁, h₁, h₂⟩) | ⟨t₂, h₁₂, h₃⟩
  · exact .inr ⟨(), trivial, .inl h₁⟩
  · exact .inr ⟨(), trivial, .inr ⟨t₁, h₁, .inl (.inl h₂)⟩⟩
  · obtain ⟨t₁, h₁, h₂⟩ := bind_eq_ok.mp h₁₂
    exact .inr ⟨(), trivial, .inr ⟨t₁, h₁, .inr ⟨(t₂, _), ⟨t₂, h₂, rfl⟩, .inl h₃⟩⟩⟩

/-- The report is of the first repetition in the order of the slots. -/
theorem outcome_lowerBody_of_firstRepeat {s : Site} (hbody : Tagged f.body)
    (hparams : ∀ p ∈ f.params, Tagged p ∧ p.type ≠ .void)
    (hvars : ∀ v ∈ f.body.vars, Tagged v ∧ v.type ≠ .void) (hs : FirstRepeat f.sitesBySlot s) :
    (lowerBody functions f).outcome = .error (.duplicateDeclaration s.name s.span) := by
  obtain ⟨before, after, hsplit, hnodup, hmem⟩ := hs
  apply outcome_lowerBody_of_declareAll hbody hparams hvars
  exact SymbolTable.declareAll_eq_error SymbolTable.inStep_empty
    (f.map_site_requests.trans hsplit) hnodup hmem

end Body

/-- Which redeclaration is reported. Where tags and types are right and
a name is declared twice, there is a first repetition as the
declarations are written and one in the order of the slots, and the body
of a function fails at the latter. The two are the same, unless the body
loops under its sentinel and what is repeated first is the name of the
sentinel; then the report is where the redeclaration happens exactly
when holding back a variable makes no difference. -/
theorem lowerBody_redeclaration (functions : FunctionTable) {f : Tree.Function}
    (hbody : Tagged f.body) (hparams : ∀ p ∈ f.params, Tagged p ∧ p.type ≠ .void)
    (hvars : ∀ v ∈ f.body.vars, Tagged v ∧ v.type ≠ .void) (hrepeat : ¬ f.declaredNames.Nodup) :
    ∃ s d, (∀ r, FirstRepeat f.sites r ↔ r = s) ∧ (∀ r, FirstRepeat f.sitesBySlot r ↔ r = d)
      ∧ (lowerBody functions f).outcome = .error (.duplicateDeclaration d.name d.span)
      ∧ ((lowerBody functions f).outcome = .error (.duplicateDeclaration s.name s.span) ↔
          (hasSentinel f.body = true → s.name = sentinelName → s = d)) := by
  rw [← f.names_sites] at hrepeat
  have hrepeat' : ¬ (f.sitesBySlot.map Site.name).Nodup := fun hnodup =>
    hrepeat ((f.sitesBySlot_perm.map Site.name).nodup_iff.mp hnodup)
  obtain ⟨s, hs⟩ := exists_firstRepeat hrepeat
  obtain ⟨d, hd⟩ := exists_firstRepeat hrepeat'
  have hreport : (lowerBody functions f).outcome = .error (.duplicateDeclaration d.name d.span) :=
    outcome_lowerBody_of_firstRepeat hbody hparams hvars ((hd d).mpr rfl)
  refine ⟨s, d, hs, hd, hreport, ?_, ?_⟩
  · intro hreport' _ _
    have herror := Except.error.inj (hreport'.symm.trans hreport)
    obtain ⟨hname, hspan⟩ := Error.duplicateDeclaration.inj herror
    exact Site.ext hname hspan
  · intro hsame
    have hsd : s = d := by
      by_cases hmoved : hasSentinel f.body = true ∧ s.name = sentinelName
      · exact hsame hmoved.1 hmoved.2
      · apply (hd s).mp
        exact Tree.Function.firstRepeat_sitesBySlot ((hs s).mpr rfl) fun hb hn => hmoved ⟨hb, hn⟩
    rw [hsd]
    exact hreport

-- ====================================================== sites by their offsets

/-- A function without a loop node that declares a parameter and the
given variables, each name at an offset. -/
def Tree.Function.declaring (vars : List (String × UInt64)) : Tree.Function where
  id := { name := "declaring" }
  params := [{ id := { name := "n", span := some (.ofRange 0 1) }, type := .i32 }]
  result := .i32
  body :=
    { vars := vars.map fun (name, start) =>
        { id := { name, span := some (.ofRange start (start + 1)) }, type := .i32 }
      calls := [{ target := { name := sentinelName }, callee := { name := "next" }
                  args := [.reference "n"] }] }

/-- Tags and types of the declarations are right in each of these
functions. -/
theorem declaring_right (vars : List (String × UInt64)) :
    Tagged (Tree.Function.declaring vars).body
      ∧ (∀ p ∈ (Tree.Function.declaring vars).params, Tagged p ∧ p.type ≠ .void)
      ∧ ∀ v ∈ (Tree.Function.declaring vars).body.vars, Tagged v ∧ v.type ≠ .void := by
  refine ⟨rfl, fun p hp => ?_, fun v hv => ?_⟩
  · cases List.mem_singleton.mp hp
    exact ⟨rfl, nofun⟩
  · obtain ⟨_, -, rfl⟩ := List.mem_map.mp hv
    exact ⟨rfl, nofun⟩

/-- A loop under the sentinel in which a variable and the sentinel are
declared again. -/
def Tree.Function.manyRepeats : Tree.Function :=
  .declaring [("x", 10), (sentinelName, 20), ("x", 30), (sentinelName, 40), ("n", 50)]

/-- The second declaration of `x` is the first repetition, and it is
reported at its own offset. -/
theorem manyRepeats_reported :
    hasSentinel Tree.Function.manyRepeats.body = true
      ∧ FirstRepeat Tree.Function.manyRepeats.sites ⟨"x", some (.ofRange 30 31)⟩
      ∧ (lowerBody {} .manyRepeats).outcome
          = .error (.duplicateDeclaration "x" (some (.ofRange 30 31))) := by
  obtain ⟨hbody, hparams, hvars⟩ := declaring_right
    [("x", 10), (sentinelName, 20), ("x", 30), (sentinelName, 40), ("n", 50)]
  have hfirst : FirstRepeat Tree.Function.manyRepeats.sites ⟨"x", some (.ofRange 30 31)⟩ :=
    ⟨Tree.Function.manyRepeats.sites.take 3, Tree.Function.manyRepeats.sites.drop 4, rfl,
      by decide, by decide⟩
  have hrepeat : ¬ Tree.Function.manyRepeats.declaredNames.Nodup := by decide
  obtain ⟨s, d, hs, -, -, hreport⟩ := lowerBody_redeclaration {} hbody hparams hvars hrepeat
  cases (hs _).mp hfirst
  exact ⟨rfl, hfirst, hreport.mpr fun _ hname => absurd hname (by decide)⟩

/-- A loop under a sentinel that is declared twice. -/
def Tree.Function.twoSentinels : Tree.Function :=
  .declaring [(sentinelName, 20), (sentinelName, 40)]

/-- Tags and types are right, and the second declaration of the sentinel
is the first repetition; but the report is at the first declaration. -/
theorem twoSentinels_misplaced :
    Tagged Tree.Function.twoSentinels.body
      ∧ (∀ p ∈ Tree.Function.twoSentinels.params, Tagged p ∧ p.type ≠ .void)
      ∧ (∀ v ∈ Tree.Function.twoSentinels.body.vars, Tagged v ∧ v.type ≠ .void)
      ∧ FirstRepeat Tree.Function.twoSentinels.sites ⟨sentinelName, some (.ofRange 40 41)⟩
      ∧ (lowerBody {} .twoSentinels).outcome
          = .error (.duplicateDeclaration sentinelName (some (.ofRange 20 21)))
      ∧ (lowerBody {} .twoSentinels).outcome
          ≠ .error (.duplicateDeclaration sentinelName (some (.ofRange 40 41))) := by
  obtain ⟨hbody, hparams, hvars⟩ := declaring_right [(sentinelName, 20), (sentinelName, 40)]
  have hreport : (lowerBody {} .twoSentinels).outcome
      = .error (.duplicateDeclaration sentinelName (some (.ofRange 20 21))) := rfl
  have hfirst : FirstRepeat Tree.Function.twoSentinels.sites
      ⟨sentinelName, some (.ofRange 40 41)⟩ :=
    ⟨Tree.Function.twoSentinels.sites.take 2, [], rfl, by decide, by decide⟩
  refine ⟨hbody, hparams, hvars, hfirst, hreport, ?_⟩
  intro hreport'
  have herror := Except.error.inj (hreport.symm.trans hreport')
  exact absurd (Error.duplicateDeclaration.inj herror).2 (by decide)

end CallFlow
