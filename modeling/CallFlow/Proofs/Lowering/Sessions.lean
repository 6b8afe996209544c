/-
A session carries nothing from one program into the next.

A session is asked for programs, with their tag or without, and for single functions and bodies,
which are lowered against the table that was left behind. Only the table of functions outlives a
request, and only a program writes it: its declarations are registered in an empty table, one after
another up to the first that fails, and the table stays as it is then, whatever comes of the bodies
and the exports.

`Registers` says what one registration comes to, `functions_register_cons` what one step of
registering does to the table, and `functions_perform` what one request does to the session. Both
inductions, over the declarations and over the history, only put such steps together.
-/
import CallFlow.Proofs.Lowering.Programs
import Mathlib.Data.List.Induction

namespace CallFlow

open CallFlow.Tree (Tagged)

-- ================================================ statement vocabulary

/-- What declares a callable name. -/
inductive Tree.CallableDeclaration where
  | imported (i : Tree.Import)
  | builtin (b : Builtin)
  | user (f : Tree.Function)

namespace Tree.CallableDeclaration

/-- The name that is declared, with its signature. -/
def callable : CallableDeclaration → Callable
  | imported i => i.callable
  | builtin b => (b.name, b.signature)
  | user f => f.callable

/-- A declaration that has a signature. -/
def Sound : CallableDeclaration → Prop
  | imported i => Tagged i
  | builtin _ => True
  | user f => Tagged f ∧ ∀ q ∈ f.params, q.type ≠ .void

end Tree.CallableDeclaration

/-- The declarations of a program in the order of their registration:
imports, builtins, then its functions. -/
def Tree.Program.declarations (p : Tree.Program) : List Tree.CallableDeclaration :=
  p.imports.map .imported ++ Builtin.all.map .builtin ++ p.functions.map .user

/-- The declarations `done` are registered out of `ds` after the names
`taken`: they come first, each has a signature and a new name, and the
next one, if there is one, has not. -/
structure RegisteredFirst (taken : List String) (ds done : List Tree.CallableDeclaration) :
    Prop where
  first : done <+: ds
  sound : ∀ d ∈ done, d.Sound
  nodup : (taken ++ done.map fun d => d.callable.1).Nodup
  stopped : ∀ d, done ++ [d] <+: ds → d.Sound →
    d.callable.1 ∈ taken ++ done.map fun d => d.callable.1

namespace Session

/-- What a session can be asked for. -/
inductive Request where
  /-- The module of a program. -/
  | program (p : Tree.Program)
  /-- The module of the parts of a program, whatever its tag. -/
  | assembly (p : Tree.Program)
  | function (f : Tree.Function)
  | body (f : Tree.Function)

/-- What a session answers, errors and events included. -/
inductive Answer where
  | module (m : Traced Module)
  | function (g : Traced Function)
  | body (b : Traced LoweredBody)

/-- Serves a request. -/
def perform (s : Session) : Request → Session × Answer
  | .program p => ((s.lowerProgram p).1, .module (s.lowerProgram p).2)
  | .assembly p => ((s.assemble p).1, .module (s.assemble p).2)
  | .function f => (s, .function (lowerFunction s.functions f))
  | .body f => (s, .body (lowerBody s.functions f))

/-- A session after a history of requests. -/
def after (s : Session) (history : List Request) : Session :=
  history.foldl (fun s r => (s.perform r).1) s

/-- The program whose declarations a request registers. -/
def Request.registered? : Request → Option Tree.Program
  | .program p => if Tagged p then some p else none
  | .assembly p => some p
  | .function _ => none
  | .body _ => none

/-- The program of a history that was registered last. -/
def latest? (history : List Request) : Option Tree.Program :=
  history.reverse.findSome? Request.registered?

end Session

-- ======================================================== registration

/-- What one step of registering does to the table: a signature under a
new name is appended, and otherwise the table stays. -/
theorem functions_register_cons (t : FunctionTable) (r : Registration) (rs : List Registration) :
    (∃ c, Registers r c ∧ c.1 ∉ t.names
        ∧ (register t (r :: rs)).1 = (register { entries := t.entries ++ [c] } rs).1)
      ∨ (∀ c, Registers r c → c.1 ∈ t.names) ∧ (register t (r :: rs)).1 = t := by
  rw [register]
  cases hsig : r.signature with
  | error e =>
    refine .inr ⟨fun c hc => ?_, rfl⟩
    rw [Registers, hsig] at hc
    cases hc.2
  | ok signature =>
    cases hdef : t.define r.name signature r.span with
    | error e =>
      refine .inr ⟨fun c hc => ?_, ?_⟩
      · by_contra hfresh
        rw [← hc.1] at hfresh
        rw [FunctionTable.define_eq_ok.mpr ⟨hfresh, rfl⟩] at hdef
        cases hdef
      · simp only [hdef]
    | ok t₁ =>
      obtain ⟨hfresh, rfl⟩ := FunctionTable.define_eq_ok.mp hdef
      refine .inl ⟨(r.name, signature), ⟨rfl, hsig⟩, hfresh, ?_⟩
      simp only [hdef]

namespace Tree

/-- How a declaration is registered. -/
def CallableDeclaration.registration : CallableDeclaration → Registration
  | imported i => i.registration
  | builtin b => b.registration
  | user f => f.registration

/-- A declaration is registered exactly if it is sound, under its own
name and signature. -/
theorem CallableDeclaration.registers_iff {d : CallableDeclaration} {c : Callable} :
    Registers d.registration c ↔ d.Sound ∧ c = d.callable := by
  cases d with
  | imported i => exact Import.registers_iff
  | builtin b => exact Builtin.registers_iff
  | user f => exact Function.registers_iff

/-- The declarations of a program are registered in the order in which
the program registers. -/
theorem Program.map_registration (p : Program) :
    p.declarations.map CallableDeclaration.registration = p.registrations := by
  unfold declarations registrations
  rw [List.map_append, List.map_append, List.map_map, List.map_map, List.map_map]
  rfl

/-- The callables of the declarations are those of the program. -/
theorem Program.map_callable (p : Program) :
    p.declarations.map CallableDeclaration.callable = p.callables := by
  unfold declarations callables
  rw [List.map_append, List.map_append, List.map_map, List.map_map, List.map_map]
  rfl

end Tree

section First

variable {taken : List String} {d : Tree.CallableDeclaration}
  {ds done : List Tree.CallableDeclaration}

theorem registeredFirst_nil (htaken : taken.Nodup) : RegisteredFirst taken [] [] where
  first := List.nil_prefix
  sound := List.forall_mem_nil _
  nodup := by rwa [List.map_nil, List.append_nil]
  stopped e he := by cases List.prefix_nil.mp he

/-- Registering ends at a declaration that has no signature or no new
name. -/
theorem registeredFirst_stop (htaken : taken.Nodup) (hd : d.Sound → d.callable.1 ∈ taken) :
    RegisteredFirst taken (d :: ds) [] where
  first := List.nil_prefix
  sound := List.forall_mem_nil _
  nodup := by rwa [List.map_nil, List.append_nil]
  stopped e he hsound := by
    obtain ⟨rfl, -⟩ := List.cons_prefix_cons.mp he
    rw [List.map_nil, List.append_nil]
    exact hd hsound

/-- A declaration that is registered takes its name for those after it. -/
theorem RegisteredFirst.cons (hsound : d.Sound)
    (h : RegisteredFirst (taken ++ [d.callable.1]) ds done) :
    RegisteredFirst taken (d :: ds) (d :: done) where
  first := List.cons_prefix_cons.mpr ⟨rfl, h.first⟩
  sound := List.forall_mem_cons.mpr ⟨hsound, h.sound⟩
  nodup := by
    rw [List.map_cons, List.append_cons]
    exact h.nodup
  stopped e he hsound := by
    rw [List.map_cons, List.append_cons]
    exact h.stopped e (List.cons_prefix_cons.mp he).2 hsound

end First

/-- Registering fills the table with the first declarations that can be
registered. The induction is over the declarations. The table is never
emptied on the way, also not after a fault. -/
theorem exists_registeredFirst (t : FunctionTable) (ht : t.names.Nodup)
    (ds : List Tree.CallableDeclaration) :
    ∃ done, RegisteredFirst t.names ds done
      ∧ (register t (ds.map Tree.CallableDeclaration.registration)).1
          = { entries := t.entries ++ done.map Tree.CallableDeclaration.callable } := by
  induction ds generalizing t with
  | nil =>
    refine ⟨[], registeredFirst_nil ht, ?_⟩
    rw [List.map_nil, List.map_nil, List.append_nil]
    rfl
  | cons d ds ih =>
    rw [List.map_cons]
    rcases functions_register_cons t d.registration
      (ds.map Tree.CallableDeclaration.registration) with ⟨c, hc, hfresh, htable⟩ | ⟨htaken, htable⟩
    · obtain ⟨hsound, rfl⟩ := Tree.CallableDeclaration.registers_iff.mp hc
      have hnames := t.names_append [d.callable]
      obtain ⟨done, hdone, hrest⟩ := ih { entries := t.entries ++ [d.callable] }
        (by rw [hnames]; exact List.concat_eq_append ▸ ht.concat hfresh)
      rw [hnames] at hdone
      refine ⟨d :: done, hdone.cons hsound, ?_⟩
      rw [htable, hrest, List.map_cons, List.append_assoc]
      rfl
    · refine ⟨[], registeredFirst_stop ht fun hsound => ?_, ?_⟩
      · exact htaken _ (Tree.CallableDeclaration.registers_iff.mpr ⟨hsound, rfl⟩)
      · rw [htable, List.map_nil, List.append_nil]

/-- The table that registering a program leaves. -/
def Tree.Program.table (p : Tree.Program) : FunctionTable :=
  (register {} p.registrations).1

/-- Whatever a program declares, its table holds the callables of the
declarations before the first fault. -/
theorem Tree.Program.exists_table_eq (p : Tree.Program) :
    ∃ done, RegisteredFirst [] p.declarations done
      ∧ p.table = { entries := done.map Tree.CallableDeclaration.callable } := by
  have h := exists_registeredFirst {} List.nodup_nil p.declarations
  rwa [p.map_registration] at h

/-- The whole program is in the table exactly when all of it can be
registered. -/
theorem Tree.Program.table_eq_callables {p : Tree.Program} :
    p.table = { entries := p.callables } ↔ p.Registered := by
  refine ⟨fun h => ?_, fun h => (register_program_eq_ok.mpr ⟨h, rfl⟩).1⟩
  obtain ⟨done, hdone, htable⟩ := p.exists_table_eq
  have hmap : p.callables = done.map Tree.CallableDeclaration.callable :=
    congrArg FunctionTable.entries (h.symm.trans htable)
  have hlength : done.length = p.declarations.length := by
    rw [← List.length_map (f := Tree.CallableDeclaration.callable), ← hmap, ← p.map_callable,
      List.length_map]
  obtain rfl := hdone.first.eq_of_length hlength
  refine ⟨fun i hi => ?_, fun f hf => ?_, ?_⟩
  · refine hdone.sound (.imported i) ?_
    simp [Tree.Program.declarations, hi]
  · refine hdone.sound (.user f) ?_
    simp [Tree.Program.declarations, hf]
  · rw [← p.map_callable, List.map_map]
    exact hdone.nodup

-- ============================================================= requests

namespace Session

/-- A program is assembled if it has the right tag, and otherwise
refused with the session as it was. -/
theorem lowerProgram_cases (p : Tree.Program) :
    Tagged p ∧ (∀ s : Session, s.lowerProgram p = s.assemble p)
      ∨ ¬ Tagged p ∧ ∃ e, ∀ s : Session, s.lowerProgram p = (s, .fail e) := by
  unfold lowerProgram
  cases hkind : expectKind p with
  | error e =>
    refine .inr ⟨fun htag => ?_, e, fun s => rfl⟩
    rw [show expectKind p = .ok () from expectKind_eq_ok.mpr htag] at hkind
    cases hkind
  | ok u => exact .inl ⟨expectKind_eq_ok.mp hkind, fun s => rfl⟩

/-- Assembling starts from an empty table. -/
theorem assemble_eq (s : Session) (p : Tree.Program) :
    s.assemble p = Session.assemble { memory := s.memory } p :=
  rfl

/-- What a session answers depends on its memory settings and on the
program, and not on programs before it. -/
theorem lowerProgram_eq (s : Session) (p : Tree.Program) :
    (s.lowerProgram p).2 = (Session.lowerProgram { memory := s.memory } p).2 := by
  rcases lowerProgram_cases p with ⟨-, h⟩ | ⟨-, e, h⟩
  · rw [h, h, s.assemble_eq]
  · rw [h, h]

theorem memory_perform (s : Session) (r : Request) : (s.perform r).1.memory = s.memory := by
  cases r with
  | program p =>
    show (s.lowerProgram p).1.memory = s.memory
    rcases lowerProgram_cases p with ⟨-, h⟩ | ⟨-, e, h⟩
    · rw [h]
      rfl
    · rw [h]
  | assembly p => rfl
  | function f => rfl
  | body f => rfl

/-- What one request does to the table: a program that is registered
replaces it, and any other request leaves it. -/
theorem functions_perform (s : Session) (r : Request) :
    (s.perform r).1.functions = (r.registered?.map Tree.Program.table).getD s.functions := by
  cases r with
  | program p =>
    show (s.lowerProgram p).1.functions
      = ((if Tagged p then some p else none).map Tree.Program.table).getD s.functions
    rcases lowerProgram_cases p with ⟨htag, h⟩ | ⟨htag, e, h⟩
    · rw [h, if_pos htag]
      rfl
    · rw [h, if_neg htag]
      rfl
  | assembly p => rfl
  | function f => rfl
  | body f => rfl

/-- One more request is performed in the session after those before it. -/
theorem after_concat (s : Session) (history : List Request) (r : Request) :
    s.after (history ++ [r]) = ((s.after history).perform r).1 :=
  List.foldl_concat ..

/-- The program registered last is the one of the last request, if this
registers one, and otherwise the one before. -/
theorem latest?_concat (history : List Request) (r : Request) :
    latest? (history ++ [r]) = r.registered?.or (latest? history) := by
  unfold latest?
  rw [List.reverse_concat, List.findSome?_cons]
  cases r.registered? with
  | none => rfl
  | some p => rfl

theorem memory_after (s : Session) (history : List Request) :
    (s.after history).memory = s.memory := by
  induction history using List.reverseRecOn with
  | nil => rfl
  | append_singleton history r ih => rw [after_concat, memory_perform, ih]

/-- After a history the table is the one of the program that was
registered last. -/
theorem functions_after (s : Session) (history : List Request) :
    (s.after history).functions
      = ((latest? history).map Tree.Program.table).getD s.functions := by
  induction history using List.reverseRecOn with
  | nil => rfl
  | append_singleton history r ih =>
    rw [after_concat, functions_perform, latest?_concat, ih]
    cases r.registered? with
    | none => rfl
    | some p => rfl

end Session

-- ============================================================ histories

/-- A session carries nothing from one program into the next. After any
history of requests, met or failed, a program is answered as by a new
session with the same memory. The table holds what the program
registered last declares, in order up to the first declaration that
cannot be registered. It holds all of it exactly when there is no such
declaration, whatever became of the bodies and the exports. -/
theorem session_after_history (memory : Memory) (history : List Session.Request) :
    let s := Session.after { memory } history
    (∀ p, (s.perform (.program p)).2 = (Session.perform { memory } (.program p)).2
        ∧ (s.perform (.assembly p)).2 = (Session.perform { memory } (.assembly p)).2)
      ∧ s.memory = memory
      ∧ (Session.latest? history = none → s.functions = {})
      ∧ ∀ p, Session.latest? history = some p →
          (∃ done, RegisteredFirst [] p.declarations done
              ∧ s.functions = { entries := done.map Tree.CallableDeclaration.callable })
            ∧ (s.functions = { entries := p.callables } ↔ p.Registered) := by
  intro s
  have hmemory : s.memory = memory := Session.memory_after _ history
  have hfunctions := Session.functions_after { memory } history
  refine ⟨fun p => ⟨?_, ?_⟩, hmemory, fun hnone => ?_, fun p hp => ?_⟩
  · show Session.Answer.module _ = .module _
    rw [s.lowerProgram_eq, hmemory]
  · show Session.Answer.module _ = .module _
    rw [s.assemble_eq, hmemory]
  · rw [hnone] at hfunctions
    exact hfunctions
  · rw [hp] at hfunctions
    change s.functions = p.table at hfunctions
    rw [hfunctions]
    exact ⟨p.exists_table_eq, Tree.Program.table_eq_callables⟩

end CallFlow
