/-
What it takes to lower a whole program, and what comes out.

Each stage of lowering has one equivalence here: the stage succeeds with a result
exactly when a condition on the program holds. `LoweredProgram` puts them
together, and `lower_eq_ok` is all that later files need to know of the stages.

Registration is the only stage with a state. A name is registered after the names
before it, so the condition is on the names in front and those to come, which the
induction carries as one list without repetition.
-/
import CallFlow.Proofs.Lowering.LoopCode

namespace CallFlow

open CallFlow.Tree (Tagged)

-- ======================================================== registration

/-- The types of parameters are given if all of them can be stored. -/
theorem storableTypes_eq_ok {ps : List Tree.Param} {ts : List ValueType} :
    storableTypes ps = .ok ts ↔ (∀ p ∈ ps, p.type ≠ .void) ∧ ts = ps.map Tree.Param.type := by
  induction ps generalizing ts with
  | nil =>
    constructor
    · intro h
      cases h
      exact ⟨List.forall_mem_nil _, rfl⟩
    · rintro ⟨-, rfl⟩
      rfl
  | cons p ps ih =>
    simp only [storableTypes, bind_eq_ok, requireStorable_eq_ok, ih, pure_eq_ok,
      List.forall_mem_cons, List.map_cons]
    constructor
    · rintro ⟨_, hp, ts', ⟨hps, rfl⟩, rfl⟩
      exact ⟨⟨hp, hps⟩, rfl⟩
    · rintro ⟨⟨hp, hps⟩, rfl⟩
      exact ⟨(), hp, _, ⟨hps, rfl⟩, rfl⟩

/-- The registered names, in order. -/
def FunctionTable.names (t : FunctionTable) : List String :=
  t.entries.map Prod.fst

/-- More entries are more names, behind those that are there. -/
theorem FunctionTable.names_append (t : FunctionTable) (cs : List (String × Signature)) :
    ({ entries := t.entries ++ cs } : FunctionTable).names = t.names ++ cs.map Prod.fst :=
  List.map_append

theorem FunctionTable.contains_iff {t : FunctionTable} {name : String} :
    t.contains name = true ↔ name ∈ t.names := by
  unfold contains lookup? names
  rw [List.lookup_isSome_iff]
  simp

/-- A name is defined once: it must be new, and then comes last. -/
theorem FunctionTable.define_eq_ok {t t' : FunctionTable} {name : String} {signature : Signature}
    {span : Option Span} :
    t.define name signature span = .ok t' ↔
      name ∉ t.names ∧ t' = { entries := t.entries ++ [(name, signature)] } := by
  unfold define
  rw [← contains_iff]
  split
  next h => exact ⟨nofun, fun h' => absurd h h'.1⟩
  next h => exact ⟨fun h' => ⟨h, (Except.ok.inj h').symm⟩, fun h' => congrArg Except.ok h'.2.symm⟩

/-- A callable name with its signature. -/
abbrev Callable := String × Signature

/-- A registration that comes to a callable name. -/
def Registers (r : Registration) (c : Callable) : Prop :=
  r.name = c.1 ∧ r.signature = .ok c.2

/-- Registration goes on with the table that the first callable was
entered in, and stops at the first fault. -/
theorem register_cons_eq_ok {t t' : FunctionTable} {r : Registration} {rs : List Registration} :
    (register t (r :: rs)).1 = t' ∧ (register t (r :: rs)).2.outcome = .ok () ↔
      ∃ signature t₁, r.signature = .ok signature ∧ t.define r.name signature r.span = .ok t₁
        ∧ (register t₁ rs).1 = t' ∧ (register t₁ rs).2.outcome = .ok () := by
  rw [register]
  cases hsig : r.signature with
  | error e =>
    constructor
    · rintro ⟨-, h⟩
      cases h
    · rintro ⟨_, _, h, -⟩
      cases h
  | ok signature =>
    cases hdef : t.define r.name signature r.span with
    | error e =>
      constructor
      · rintro ⟨-, h⟩
        simp only [hdef] at h
        cases h
      · rintro ⟨_, _, hs, h, -⟩
        cases hs
        rw [hdef] at h
        cases h
    | ok t₁ =>
      simp only [hdef, Traced.outcome_bind, Traced.outcome_report]
      constructor
      · rintro ⟨ht, h⟩
        exact ⟨signature, t₁, rfl, hdef, ht, h⟩
      · rintro ⟨_, _, hs, h, ht, hrest⟩
        cases hs
        rw [hdef] at h
        cases h
        exact ⟨ht, hrest⟩

/-- Registration succeeds exactly when every declaration has a signature
and no name is taken, and appends the names with their signatures. The
induction is over the registrations, with the table as a parameter that
grows. -/
theorem register_eq_ok {t t' : FunctionTable} {rs : List Registration} (ht : t.names.Nodup) :
    (register t rs).1 = t' ∧ (register t rs).2.outcome = .ok () ↔
      ∃ cs, List.Forall₂ Registers rs cs ∧ (t.names ++ cs.map Prod.fst).Nodup
        ∧ t' = { entries := t.entries ++ cs } := by
  induction rs generalizing t with
  | nil =>
    constructor
    · rintro ⟨rfl, -⟩
      refine ⟨[], .nil, ?_, ?_⟩
      · rwa [List.map_nil, List.append_nil]
      · rw [List.append_nil]; rfl
    · rintro ⟨cs, hcs, -, rfl⟩
      cases hcs
      rw [List.append_nil]
      exact ⟨rfl, rfl⟩
  | cons r rs ih =>
    rw [register_cons_eq_ok]
    constructor
    · rintro ⟨signature, t₁, hsig, hdef, hrest⟩
      obtain ⟨hfresh, rfl⟩ := FunctionTable.define_eq_ok.mp hdef
      have ht₁ := List.concat_eq_append ▸ ht.concat hfresh
      rw [ih (by rwa [FunctionTable.names_append])] at hrest
      obtain ⟨cs, hcs, hnodup, rfl⟩ := hrest
      refine ⟨(r.name, signature) :: cs, .cons ⟨rfl, hsig⟩ hcs, ?_, ?_⟩
      · rw [FunctionTable.names_append] at hnodup
        exact (nodup_append_cons.mp ⟨hfresh, hnodup⟩)
      · rw [List.append_assoc]
        rfl
    · rintro ⟨_, hall, hnodup, rfl⟩
      obtain _ | @⟨_, ⟨_, signature⟩, _, cs, ⟨rfl, hsig⟩, hcs⟩ := hall
      obtain ⟨hfresh, hnodup⟩ := nodup_append_cons.mpr hnodup
      refine ⟨signature, _, hsig, FunctionTable.define_eq_ok.mpr ⟨hfresh, rfl⟩, ?_⟩
      rw [ih (by rw [FunctionTable.names_append]; exact List.concat_eq_append ▸ ht.concat hfresh)]
      refine ⟨cs, hcs, ?_, ?_⟩
      · rw [FunctionTable.names_append]
        exact hnodup
      · rw [List.append_assoc]
        rfl

namespace Tree

/-- What a function is called by and with. -/
def Function.callable (f : Function) : Callable :=
  (f.name, .ofTypes (f.params.map Param.type) f.result .user)

/-- What an import is called by and with. -/
def Import.callable (i : Import) : Callable :=
  (i.id.name, .ofTypes i.params i.result .imported)

/-- Everything that a call or an export of a program may name. -/
def Program.callables (p : Program) : List Callable :=
  p.imports.map Import.callable ++ Builtin.all.map (fun b => (b.name, b.signature))
    ++ p.functions.map Function.callable

/-- The declarations of a program can be registered. -/
structure Program.Registered (p : Program) : Prop where
  imports : ∀ i ∈ p.imports, Tagged i
  functions : ∀ f ∈ p.functions, Tagged f ∧ ∀ q ∈ f.params, q.type ≠ .void
  nodup : (p.callables.map Prod.fst).Nodup

/-- An import is registered if it is tagged, with the signature that it
declares. -/
theorem Import.registers_iff {i : Import} {c : Callable} :
    Registers i.registration c ↔ Tagged i ∧ c = i.callable := by
  obtain ⟨name, signature⟩ := c
  simp only [Registers, Import.registration, bind_eq_ok, expectKind_eq_ok, pure_eq_ok,
    Import.callable, Prod.mk.injEq]
  constructor
  · rintro ⟨hname, _, htag, hsig⟩
    exact ⟨htag, hname.symm, hsig.symm⟩
  · rintro ⟨htag, hname, hsig⟩
    exact ⟨hname.symm, (), htag, hsig.symm⟩

/-- A function is registered if it is tagged and takes no parameter
without values. -/
theorem Function.registers_iff {f : Function} {c : Callable} :
    Registers f.registration c ↔
      (Tagged f ∧ ∀ q ∈ f.params, q.type ≠ .void) ∧ c = f.callable := by
  obtain ⟨name, signature⟩ := c
  simp only [Registers, Function.registration, bind_eq_ok, expectKind_eq_ok, pure_eq_ok,
    storableTypes_eq_ok, Function.callable, Prod.mk.injEq]
  constructor
  · rintro ⟨hname, _, htag, _, ⟨hparams, rfl⟩, hsig⟩
    exact ⟨⟨htag, hparams⟩, hname.symm, hsig.symm⟩
  · rintro ⟨⟨htag, hparams⟩, hname, hsig⟩
    exact ⟨hname.symm, (), htag, _, ⟨hparams, rfl⟩, hsig.symm⟩

end Tree

theorem Builtin.registers_iff {b : Builtin} {c : Callable} :
    Registers b.registration c ↔ True ∧ c = (b.name, b.signature) := by
  obtain ⟨name, signature⟩ := c
  simp only [Registers, Builtin.registration, Except.ok.injEq, Prod.mk.injEq, true_and]
  exact ⟨fun h => ⟨h.1.symm, h.2.symm⟩, fun h => ⟨h.1.symm, h.2.symm⟩⟩

/-- All callables of a program are registered exactly when imports and
functions pass, and are then the callables in order. -/
theorem Tree.Program.registers_iff {p : Tree.Program} {cs : List Callable} :
    List.Forall₂ Registers p.registrations cs ↔
      ((∀ i ∈ p.imports, Tagged i) ∧ ∀ f ∈ p.functions, Tagged f ∧ ∀ q ∈ f.params, q.type ≠ .void)
        ∧ cs = p.callables := by
  unfold Tree.Program.registrations Tree.Program.callables
  simp only [forall₂_append_left, forall₂_map_left (fun i _ => Tree.Import.registers_iff),
    forall₂_map_left (fun b _ => Builtin.registers_iff),
    forall₂_map_left (fun f _ => Tree.Function.registers_iff)]
  constructor
  · rintro ⟨_, _, ⟨_, _, ⟨himports, rfl⟩, ⟨-, rfl⟩, rfl⟩, ⟨hfunctions, rfl⟩, rfl⟩
    exact ⟨⟨himports, hfunctions⟩, rfl⟩
  · rintro ⟨⟨himports, hfunctions⟩, rfl⟩
    exact ⟨_, _, ⟨_, _, ⟨himports, rfl⟩, ⟨fun _ _ => trivial, rfl⟩, rfl⟩, ⟨hfunctions, rfl⟩, rfl⟩

/-- The table of a program that can be registered holds what it can
call. -/
theorem register_program_eq_ok {p : Tree.Program} {t : FunctionTable} :
    (register {} p.registrations).1 = t ∧ (register {} p.registrations).2.outcome = .ok () ↔
      p.Registered ∧ t = { entries := p.callables } := by
  have hempty : ({} : FunctionTable).names = [] := rfl
  rw [register_eq_ok (hempty ▸ List.nodup_nil)]
  simp only [Tree.Program.registers_iff, hempty, List.nil_append]
  constructor
  · rintro ⟨_, ⟨⟨himports, hfunctions⟩, rfl⟩, hnodup, rfl⟩
    exact ⟨⟨himports, hfunctions, hnodup⟩, rfl⟩
  · rintro ⟨⟨himports, hfunctions, hnodup⟩, rfl⟩
    exact ⟨_, ⟨⟨himports, hfunctions⟩, rfl⟩, hnodup, rfl⟩

-- ================================================ functions and exports

/-- Functions are lowered one by one, each under the same table. -/
theorem outcome_lowerFunctions_eq_ok {functions : FunctionTable} {fs : List Tree.Function}
    {gs : List Function} :
    (lowerFunctions functions fs).outcome = .ok gs ↔
      List.Forall₂ (fun f g => (lowerFunction functions f).outcome = .ok g) fs gs := by
  induction fs generalizing gs with
  | nil =>
    rw [List.forall₂_nil_left_iff]
    exact ⟨fun h => (Except.ok.inj h).symm, fun h => congrArg Except.ok h.symm⟩
  | cons f fs ih =>
    rw [lowerFunctions, List.forall₂_cons_left_iff]
    simp only [Traced.outcome_bind, bind_eq_ok, Traced.outcome_pure, Except.ok.injEq, ih]
    constructor
    · rintro ⟨g, hg, gs', hgs, rfl⟩
      exact ⟨g, gs', hg, hgs, rfl⟩
    · rintro ⟨g, gs', hg, hgs, rfl⟩
      exact ⟨g, hg, gs', hgs, rfl⟩

/-- The export that an export node stands for. -/
def loweredExport (e : Tree.Export) : Export where
  function := e.id.name
  name := e.name

@[simp]
theorem outcome_reportIf (condition : Bool) (event : Event) :
    (reportIf condition event).outcome = .ok () := by
  cases condition <;> rfl

/-- Exports are lowered exactly when they name callable functions; a
name that was used before is no obstacle. The exports of a program are
checked again as part of the module, and it is there that a name used
twice is found. -/
theorem outcome_lowerExports_eq_ok {functions : FunctionTable} {exported names : List String}
    {es : List Tree.Export} {exports : List Export} :
    (lowerExports functions exported names es).outcome = .ok exports ↔
      (∀ e ∈ es, Tagged e ∧ e.id.name ∈ functions.names)
        ∧ exports = es.map loweredExport := by
  induction es generalizing exported names exports with
  | nil =>
    rw [List.map_nil]
    constructor
    · intro h
      exact ⟨List.forall_mem_nil _, (Except.ok.inj h).symm⟩
    · intro h
      exact congrArg Except.ok h.2.symm
  | cons e es ih =>
    rw [lowerExports, List.forall_mem_cons, List.map_cons, ← FunctionTable.contains_iff]
    simp only [Traced.outcome_bind, Traced.outcome_ofExcept, bind_eq_ok, expectKind_eq_ok]
    by_cases hcontains : functions.contains e.id.name = true
    · simp only [if_pos hcontains, Traced.outcome_bind, outcome_reportIf, bind_eq_ok,
        Traced.outcome_pure, Except.ok.injEq, ih]
      constructor
      · rintro ⟨_, htag, _, -, _, -, rest, ⟨hes, rfl⟩, rfl⟩
        exact ⟨⟨⟨htag, hcontains⟩, hes⟩, rfl⟩
      · rintro ⟨⟨⟨htag, -⟩, hes⟩, rfl⟩
        exact ⟨(), htag, (), trivial, (), trivial, _, ⟨hes, rfl⟩, rfl⟩
    · simp only [if_neg hcontains, Traced.outcome_fail]
      constructor
      · rintro ⟨_, _, h⟩
        cases h
      · rintro ⟨⟨⟨_, h⟩, _⟩, _⟩
        exact absurd h hcontains

-- ============================================================ programs

/-- The module of a program whose functions are lowered. -/
def loweredModule (memory : Memory) (p : Tree.Program) (gs : List Function) : Module where
  imports := p.imports.map lowerImport
  functions := Builtin.functions ++ gs
  exports := p.exports.map loweredExport
  memory := memory

/-- A program with the functions that those of the program are lowered
to. -/
structure LoweredProgram (p : Tree.Program) (gs : List Function) : Prop where
  tagged : Tagged p
  registered : p.Registered
  functions : List.Forall₂
    (fun f g => (lowerFunction { entries := p.callables } f).outcome = .ok g) p.functions gs
  exports : ∀ e ∈ p.exports, Tagged e ∧ e.id.name ∈ p.callables.map Prod.fst

/-- A session lowers a program exactly when its parts can be lowered. In
order these are registration, the functions, the exports and the module
that is made of them. -/
theorem outcome_lowerProgram_eq_ok {s : Session} {p : Tree.Program} {m : Module} :
    (s.lowerProgram p).2.outcome = .ok m ↔
      ∃ gs, LoweredProgram p gs ∧ m = loweredModule s.memory p gs := by
  have htable := @register_program_eq_ok p (register {} p.registrations).1
  rw [eq_self, true_and] at htable
  unfold Session.lowerProgram
  cases hkind : expectKind p with
  | error e =>
    constructor
    · intro h
      cases h
    · rintro ⟨gs, h, -⟩
      have hok : expectKind p = .ok () := expectKind_eq_ok.mpr h.tagged
      rw [hok] at hkind
      cases hkind
  | ok u =>
    simp only [Session.assemble, Traced.outcome_bind, bind_eq_ok, htable,
      outcome_lowerFunctions_eq_ok, outcome_lowerExports_eq_ok, Traced.outcome_report,
      Traced.outcome_pure, Except.ok.injEq]
    constructor
    · rintro ⟨_, ⟨hreg, ht⟩, gs, hgs, _, ⟨hexports, rfl⟩, _, -, rfl⟩
      rw [ht] at hgs hexports
      exact ⟨gs, ⟨expectKind_eq_ok.mp hkind, hreg, hgs, hexports⟩, rfl⟩
    · rintro ⟨gs, ⟨-, hreg, hgs, hexports⟩, rfl⟩
      have ht := (register_program_eq_ok.mpr ⟨hreg, rfl⟩).1
      rw [ht]
      exact ⟨(), ⟨hreg, rfl⟩, gs, hgs, _, ⟨hexports, rfl⟩, (), trivial, rfl⟩

end CallFlow
