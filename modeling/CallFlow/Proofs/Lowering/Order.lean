/-
The order in which functions are declared does not matter.

All names are registered before the first body is lowered, and a body asks the table of functions
only what a name stands for. Registration needs the names to be distinct, and among distinct names
the order of the entries makes no difference to a lookup. So the same functions in another order
are registered or not alike, every body is lowered against the same answers, and the lowered
functions come out in the order of the declarations.

An order is a permutation of the positions, so that the statement can say which lowered function
stands where.
-/
import CallFlow.Proofs.Lowering.Programs
import Mathlib.Data.List.FinRange

namespace CallFlow

open CallFlow.Tree (Tagged)

-- =================================================== tables by answers

/-- Among distinct keys the order of the pairs makes no difference to a
lookup. -/
theorem lookup_eq_of_perm {β : Type} {l l' : List (String × β)} (h : l.Perm l')
    (hnodup : (l.map Prod.fst).Nodup) (k : String) : l.lookup k = l'.lookup k := by
  have hnodup' : (l'.map Prod.fst).Nodup := (h.map Prod.fst).nodup_iff.mp hnodup
  ext b
  rw [lookup_eq_some_of_nodup hnodup, lookup_eq_some_of_nodup hnodup', h.mem_iff]

section Tables

variable {t t' : FunctionTable} (h : ∀ name, t.lookup? name = t'.lookup? name)

include h

/-- A call is lowered alike under tables that give every name the same
signature. -/
theorem callOperation_congr (symbols : SymbolTable) (c : Tree.Call) :
    callOperation t symbols c = callOperation t' symbols c := by
  unfold callOperation
  simp only [h]

/-- Calls in order are lowered alike under such tables. -/
theorem lowerCalls_congr (symbols : SymbolTable) (cs : List Tree.Call) :
    lowerCalls t symbols cs = lowerCalls t' symbols cs := by
  induction cs with
  | nil => rfl
  | cons c cs ih => rw [lowerCalls, lowerCalls, callOperation_congr h, ih]

/-- A body is lowered alike under such tables: only its calls look at
them. -/
theorem lowerBody_congr (f : Tree.Function) : lowerBody t f = lowerBody t' f := by
  unfold lowerBody
  simp only [lowerCalls_congr h]

/-- A function is lowered alike against tables with the same answers,
errors and events included. -/
theorem lowerFunction_congr (f : Tree.Function) : lowerFunction t f = lowerFunction t' f := by
  unfold lowerFunction
  rw [lowerBody_congr h]

end Tables

-- ====================================================== lists by place

/-- Lists given by their entries are related if the entries are, number
by number. -/
theorem forall₂_ofFn {α β : Type} {R : α → β → Prop} {n : Nat} {a : Fin n → α} {b : Fin n → β} :
    List.Forall₂ R (List.ofFn a) (List.ofFn b) ↔ ∀ i, R (a i) (b i) := by
  induction n with
  | zero =>
    rw [List.ofFn_zero, List.ofFn_zero]
    exact ⟨fun _ i => i.elim0, fun _ => .nil⟩
  | succ n ih => rw [List.ofFn_succ, List.ofFn_succ, List.forall₂_cons, ih, Fin.forall_fin_succ]

theorem forall₂_get {α β : Type} {R : α → β → Prop} {as : List α} {b : Fin as.length → β} :
    List.Forall₂ R as (List.ofFn b) ↔ ∀ i, R (as.get i) (b i) := by
  have h := forall₂_ofFn (R := R) (a := as.get) (b := b)
  rwa [List.ofFn_get] at h

theorem exists_eq_ofFn {α : Type} {as : List α} {n : Nat} (h : as.length = n) :
    ∃ a : Fin n → α, as = List.ofFn a := by
  subst h
  exact ⟨as.get, (List.ofFn_get as).symm⟩

-- ============================================== functions in another order

/-- A program with its functions in another order: in place `i` stands
the one from `σ i`. -/
def Tree.Program.permute (p : Tree.Program) (σ : Equiv.Perm (Fin p.functions.length)) :
    Tree.Program :=
  { p with functions := List.ofFn fun i => p.functions.get (σ i) }

section Permuted

variable {p : Tree.Program} {σ : Equiv.Perm (Fin p.functions.length)}

/-- A permuted program has the same functions in another order. -/
theorem functions_permute : (p.permute σ).functions.Perm p.functions := by
  have hperm := Equiv.Perm.ofFn_comp_perm σ p.functions.get
  rwa [List.ofFn_get] at hperm

/-- A permuted program has the same callable functions in another order. -/
theorem callables_permute : (p.permute σ).callables.Perm p.callables :=
  (functions_permute.map Tree.Function.callable).append_left _

/-- The functions can be registered in any order or in none. -/
theorem registered_permute : (p.permute σ).Registered ↔ p.Registered := by
  have hnames := callables_permute (σ := σ).map Prod.fst
  refine ⟨fun h => ⟨h.imports, fun f hf => ?_, ?_⟩, fun h => ⟨h.imports, fun f hf => ?_, ?_⟩⟩
  · exact h.functions f (functions_permute.mem_iff.mpr hf)
  · exact hnames.nodup_iff.mp h.nodup
  · exact h.functions f (functions_permute.mem_iff.mp hf)
  · exact hnames.nodup_iff.mpr h.nodup

/-- A body is lowered alike wherever its function stands. -/
theorem lowerFunction_permute (h : p.Registered) (f : Tree.Function) :
    lowerFunction { entries := (p.permute σ).callables } f =
      lowerFunction { entries := p.callables } f := by
  apply lowerFunction_congr
  intro name
  exact lookup_eq_of_perm callables_permute (registered_permute.mpr h).nodup name

/-- Functions of the permuted program are lowered to what they were
lowered to before, as the table that they look into answers as before. -/
theorem loweredFunctions_permute {gs : Fin p.functions.length → Function} (h : p.Registered) :
    List.Forall₂
        (fun f g => (lowerFunction { entries := (p.permute σ).callables } f).outcome = .ok g)
        (p.permute σ).functions (List.ofFn fun i => gs (σ i)) ↔
      List.Forall₂ (fun f g => (lowerFunction { entries := p.callables } f).outcome = .ok g)
        p.functions (List.ofFn gs) := by
  simp only [lowerFunction_permute h]
  rw [forall₂_get, Tree.Program.permute, forall₂_ofFn]
  exact σ.forall_congr_right (q := fun i =>
    (lowerFunction { entries := p.callables } (p.functions.get i)).outcome = .ok (gs i))

/-- A program lowers exactly when it does in another order, and the
functions come out in that order. -/
theorem loweredProgram_permute {gs : Fin p.functions.length → Function} :
    LoweredProgram (p.permute σ) (List.ofFn fun i => gs (σ i)) ↔
      LoweredProgram p (List.ofFn gs) := by
  have hnames (name : String) := (callables_permute (σ := σ).map Prod.fst).mem_iff (a := name)
  refine ⟨fun h => ?_, fun h => ?_⟩
  · have hreg := registered_permute.mp h.registered
    refine ⟨h.tagged, hreg, (loweredFunctions_permute hreg).mp h.functions, fun e he => ?_⟩
    exact ⟨(h.exports e he).1, (hnames _).mp (h.exports e he).2⟩
  · refine ⟨h.tagged, registered_permute.mpr h.registered,
      (loweredFunctions_permute h.registered).mpr h.functions, fun e he => ?_⟩
    exact ⟨(h.exports e he).1, (hnames _).mpr (h.exports e he).2⟩

/-- Whatever a program lowers to in another order, it lowers to the same
in its own. -/
theorem loweredProgram_eq_ofFn {gs : List Function} (h : LoweredProgram (p.permute σ) gs) :
    ∃ gs' : Fin p.functions.length → Function,
      gs = List.ofFn (fun i => gs' (σ i)) ∧ LoweredProgram p (List.ofFn gs') := by
  have hlength : gs.length = p.functions.length := by
    rw [← h.functions.length_eq]
    exact List.length_ofFn
  obtain ⟨gs', rfl⟩ := exists_eq_ofFn hlength
  have hinv : gs' = fun i => gs' (σ.symm (σ i)) := by
    funext i
    rw [σ.symm_apply_apply]
  rw [hinv] at h ⊢
  exact ⟨fun i => gs' (σ.symm i), rfl, loweredProgram_permute.mp h⟩

theorem loweredProgram_unique {gs gs' : List Function} (h : LoweredProgram p gs)
    (h' : LoweredProgram p gs') : gs = gs' := by
  have hok := outcome_lowerFunctions_eq_ok.mpr h.functions
  rw [outcome_lowerFunctions_eq_ok.mpr h'.functions] at hok
  exact (Except.ok.inj hok).symm

/-- Functions keep their names when they are lowered, at every place. -/
theorem name_eq_of_loweredProgram {gs : Fin p.functions.length → Function}
    (h : LoweredProgram p (List.ofFn gs)) (i : Fin p.functions.length) :
    (gs i).name = (p.functions.get i).name := by
  obtain ⟨inits, calls, guard, slot, -, hg⟩ :=
    outcome_lowerFunction_eq_ok.mp (forall₂_get.mp h.functions i)
  rw [hg]
  rfl

end Permuted

-- =========================================================== the order

/-- The functions of a program can be declared in any order. The program
with its functions in another order is accepted exactly when the program
is, and then the module differs in the order of these functions alone:
after the builtins stands, in each place, the function that the
declaration in that place is lowered to. -/
theorem lowerProgram_permute (s : Session) (p : Tree.Program)
    (σ : Equiv.Perm (Fin p.functions.length)) :
    ((∃ m, (s.lowerProgram (p.permute σ)).2.outcome = .ok m) ↔
        ∃ m, (s.lowerProgram p).2.outcome = .ok m)
      ∧ ∀ m m', (s.lowerProgram p).2.outcome = .ok m →
          (s.lowerProgram (p.permute σ)).2.outcome = .ok m' →
          m'.imports = m.imports ∧ m'.exports = m.exports ∧ m'.memory = m.memory
            ∧ ∃ gs : Fin p.functions.length → Function,
                (∀ i, (gs i).name = (p.functions.get i).name)
                  ∧ m.functions = Builtin.functions ++ List.ofFn gs
                  ∧ m'.functions = Builtin.functions ++ List.ofFn fun i => gs (σ i) := by
  simp only [outcome_lowerProgram_eq_ok]
  refine ⟨⟨fun h => ?_, fun h => ?_⟩, fun m m' hm hm' => ?_⟩
  · obtain ⟨_, gs, hgs, -⟩ := h
    obtain ⟨gs', -, hgs'⟩ := loweredProgram_eq_ofFn hgs
    exact ⟨_, _, hgs', rfl⟩
  · obtain ⟨_, gs, hgs, -⟩ := h
    obtain ⟨gs', rfl⟩ := exists_eq_ofFn hgs.functions.length_eq.symm
    exact ⟨_, _, loweredProgram_permute.mpr hgs, rfl⟩
  · obtain ⟨gs, hgs, rfl⟩ := hm
    obtain ⟨_, hperm, rfl⟩ := hm'
    obtain ⟨gs', rfl, hgs'⟩ := loweredProgram_eq_ofFn hperm
    -- both orders were lowered, and a function comes out as the same one each time
    obtain rfl := loweredProgram_unique hgs hgs'
    exact ⟨rfl, rfl, rfl, gs', name_eq_of_loweredProgram hgs', rfl, rfl⟩

end CallFlow
