/-
Code that passes the checks makes sense when it runs.

A run of checked code keeps every slot at its declared type. An expression leaves
what its type says, a branch goes to a label that is in scope, a return gives what
the function promises, and nothing ever asks for something that there is not. Only
two things can stop the code before its end: an access out of bounds and a bound
that is used up.

`Safe` says this of a step. It is kept by sequencing and by what catches branches,
so that each kind of expression is one case of one induction over the code.
-/
import CallFlow.Proofs.Code.Checks
import CallFlow.Proofs.Semantics.Evaluation

namespace CallFlow

-- ======================================================= typed functions

/-- Values can be stored in all slots of a module and passed in all its
calls. -/
structure Module.Storable (m : Module) : Prop where
  imports : ∀ i ∈ m.imports, ∀ t ∈ i.params, t ≠ .void
  functions : ∀ f ∈ m.functions, ∀ t ∈ f.params ++ f.locals, t ≠ .void

/-- In a module whose slots all hold values, arguments of calls are
values. -/
theorem Module.Storable.signature? {m : Module} (h : m.Storable) {name : String}
    {params : List ValueType} {result : ValueType}
    (hs : m.signature? name = some (params, result)) : ∀ t ∈ params, t ≠ .void := by
  unfold Module.signature? at hs
  cases hi : m.import? name with
  | some i =>
    rw [hi] at hs
    cases hs
    exact h.imports i (List.mem_of_find?_eq_some hi)
  | none =>
    rw [hi] at hs
    obtain ⟨f, hf, hpair⟩ := Option.map_eq_some_iff.mp hs
    cases hpair
    intro t ht
    exact h.functions f (List.mem_of_find?_eq_some hf) t (List.mem_append_left _ ht)

theorem Module.Storable.slotType? {m : Module} (h : m.Storable) {f : Function}
    (hf : f ∈ m.functions) {i : Nat} {t : ValueType} (ht : f.slotType? i = some t) :
    t ≠ .void :=
  h.functions f hf t (List.mem_of_getElem? ht)

namespace Function

/-- The values of slots have the declared types. -/
def Typed (f : Function) (slots : List Constant) : Prop :=
  slots.map Constant.type = f.params ++ f.locals

variable {f : Function} {slots : List Constant}

/-- A declared slot holds a value of its type. -/
theorem Typed.get (h : f.Typed slots) {i : Nat} {t : ValueType} (ht : f.slotType? i = some t) :
    ∃ c, slots[i]? = some c ∧ c.type = t := by
  unfold slotType? at ht
  rw [← h, List.getElem?_map, Option.map_eq_some_iff] at ht
  exact ht

/-- Assigning a value of the declared type keeps the types. -/
theorem Typed.set (h : f.Typed slots) {i : Nat} {c : Constant}
    (ht : f.slotType? i = some c.type) : i < slots.length ∧ f.Typed (slots.set i c) := by
  obtain ⟨old, hold, htype⟩ := h.get ht
  have hi : i < slots.length := (List.getElem?_eq_some_iff.mp hold).1
  refine ⟨hi, ?_⟩
  unfold Typed
  rw [List.map_set, ← htype, ← h]
  refine List.ext_getElem? fun j => ?_
  by_cases hj : i = j
  · subst hj
    rw [List.getElem?_set_self (by rwa [List.length_map]), List.getElem?_map, hold]
    rfl
  · rw [List.getElem?_set_ne hj]

end Function

-- ============================================================ safe steps

/-- The exits that checked code may take inside the given labels. -/
def Exit.Allowed (f : Function) (labels : List String) : Exit → Prop
  | branch l => l ∈ labels
  | returned v => valueType v = f.result
  | trapped => True
  | stuck => False
  | outOfFuel => True

/-- An exit that is not the branch to a label is allowed without the
label. -/
theorem Exit.Allowed.of_cons {f : Function} {labels : List String} {l : String} {e : Exit}
    (h : e.Allowed f (l :: labels)) (he : e ≠ .branch l) : e.Allowed f labels := by
  cases e with
  | branch l' =>
    rcases List.mem_cons.mp h with rfl | hl
    · exact absurd rfl he
    · exact hl
  | _ => exact h

/-- What a safe step comes to: typed slots, with a value that has a
property or with an exit that is allowed. -/
inductive Sound {σ α : Type} (f : Function) (labels : List String) (P : α → Prop) :
    Except Exit α × State (List Constant) σ → Prop
  | ok {a : α} {s : State (List Constant) σ} (value : P a) (typed : f.Typed s.store) :
      Sound f labels P (.ok a, s)
  | error {e : Exit} {s : State (List Constant) σ} (allowed : e.Allowed f labels)
      (typed : f.Typed s.store) : Sound f labels P (.error e, s)

/-- A step that from typed slots comes to something sound. -/
def Safe {σ α : Type} (f : Function) (labels : List String) (P : α → Prop)
    (x : Eval (List Constant) σ α) : Prop :=
  ∀ s, f.Typed s.store → Sound f labels P (x s)

namespace Safe

variable {σ α β : Type} {f : Function} {labels : List String} {P : α → Prop} {Q : β → Prop}

/-- Giving a value is safe if the value has the property that is asked
for. -/
theorem pure {a : α} (h : P a) :
    Safe f labels P (Pure.pure a : Eval (List Constant) σ α) :=
  fun _ hs => .ok h hs

/-- To exit is safe if the function may exit so with these labels in
scope. -/
theorem exit {e : Exit} (h : e.Allowed f labels) :
    Safe f labels P (.exit e : Eval (List Constant) σ α) :=
  fun _ hs => .error h hs

/-- Safe steps in turn are safe: the second starts in a typed store with
a value that has the property of the first. -/
theorem bind {x : Eval (List Constant) σ α} {k : α → Eval (List Constant) σ β}
    (hx : Safe f labels P x) (hk : ∀ a, P a → Safe f labels Q (k a)) :
    Safe f labels Q (x >>= k) := by
  intro s hs
  rw [Eval.bind_apply]
  have hresult := hx s hs
  generalize x s = r at hresult ⊢
  cases hresult with
  | ok value typed => exact hk _ value _ typed
  | error allowed typed => exact .error allowed typed

/-- A step that only looks at the world, or changes nothing else. -/
theorem of_ok {x : Eval (List Constant) σ α}
    (h : ∀ s, ∃ a w, P a ∧ x s = (.ok a, { s with world := w })) : Safe f labels P x := by
  intro s hs
  obtain ⟨a, w, ha, hx⟩ := h s
  rw [hx]
  exact .ok ha hs

theorem readSlot {i : Nat} {t : ValueType} (ht : f.slotType? i = some t) :
    Safe f labels (fun c => c.type = t) (CallFlow.readSlot i : Eval _ σ _) := by
  intro s hs
  obtain ⟨c, hc, htype⟩ := hs.get ht
  simp only [CallFlow.readSlot, hc]
  exact .ok htype hs

theorem writeSlot {i : Nat} {c : Constant} (ht : f.slotType? i = some c.type) :
    Safe f labels (fun _ => True) (CallFlow.writeSlot i c : Eval _ σ _) := by
  intro s hs
  obtain ⟨hi, hset⟩ := hs.set ht
  simp only [CallFlow.writeSlot, if_pos hi]
  exact .ok trivial hset

/-- What must be there is, where the type says so. -/
theorem need {v : Option Constant} {t : ValueType} (hv : valueType v = t) (ht : t ≠ .void) :
    Safe f labels (fun c => c.type = t) (.need v : Eval _ σ _) := by
  obtain ⟨c, rfl⟩ := exists_of_valueType_ne_void (hv ▸ ht)
  exact .pure hv

/-- A condition or an address of type `i32` is an integer, so nothing
gets stuck on it. -/
theorem needI32 {v : Option Constant} (hv : valueType v = .i32) :
    Safe f labels (fun _ => True) (.needI32 v : Eval _ σ _) := by
  obtain ⟨n, rfl⟩ := exists_of_valueType_i32 hv
  exact .pure trivial

/-- An access out of bounds traps, and to trap is always allowed. -/
theorem inBounds (o : Option α) :
    Safe f labels (fun _ => True) (.inBounds o : Eval (List Constant) σ _) := by
  cases o with
  | some a => exact .pure trivial
  | none => exact .exit trivial

/-- What catches the branches to a label takes the label out of scope. -/
theorem untilBranch {l : String} {body : Eval (List Constant) σ Unit} {P : Unit → Prop}
    (h : Safe f (l :: labels) P body) : Safe f labels (fun _ => True) (.untilBranch l body) := by
  intro s hs
  have hresult := h s hs
  generalize hbody : body s = r at hresult
  cases hresult with
  | ok value typed =>
    rw [Eval.untilBranch_of_ne hbody nofun]
    exact .ok trivial typed
  | @error e s' allowed typed =>
    by_cases he : e = .branch l
    · subst he
      rw [Eval.untilBranch_of_branch hbody]
      exact .ok trivial typed
    · rw [Eval.untilBranch_of_ne hbody fun h => he (Except.error.inj h)]
      exact .error (allowed.of_cons he) typed

/-- Each round of a loop is safe, and the branch that starts another one
does not leave the loop. The induction is over the rounds that there is
fuel for. -/
theorem againOnBranch {l : String} {body : Eval (List Constant) σ Unit} {P : Unit → Prop}
    (h : Safe f (l :: labels) P body) (rounds : Nat) :
    Safe f labels (fun _ => True) (.againOnBranch l body rounds) := by
  induction rounds with
  | zero => exact .exit trivial
  | succ rounds ih =>
    intro s hs
    have hresult := h s hs
    generalize hbody : body s = r at hresult
    cases hresult with
    | ok value typed =>
      rw [Eval.againOnBranch_of_ne hbody nofun]
      exact .ok trivial typed
    | @error e s' allowed typed =>
      by_cases he : e = .branch l
      · subst he
        rw [Eval.againOnBranch_of_branch hbody]
        exact ih s' typed
      · rw [Eval.againOnBranch_of_ne hbody fun h => he (Except.error.inj h)]
        exact .error (allowed.of_cons he) typed

end Safe

-- ========================================================== expressions

/-- The value with the given bits is of the type, if it can be loaded. -/
theorem Constant.valueType_ofBits {t : ValueType} (ht : t = .i32 ∨ t = .f64) (n : Nat) :
    valueType (ofBits t n) = t := by
  rcases ht with rfl | rfl <;> rfl

namespace Expr

variable {σ : Type} (oracle : Oracle σ) (fuel : Nat) {m : Module} {f : Function}

mutual

/-- A checked expression is safe, and leaves what its type says. The
recursion is over the expression, and every case is put together from
the lemmas above for what the case does. -/
theorem eval_safe (hm : m.Storable) (hf : f ∈ m.functions) {labels : List String} :
    ∀ e, check m f labels e = .ok () →
      Safe f labels (fun v => valueType v = e.type) (eval oracle fuel e)
  | const c, _ => .pure rfl
  | get i t, h => by
    refine (Safe.readSlot (check_get.mp h)).bind fun c hc => ?_
    exact .pure hc
  | set i v, h => by
    obtain ⟨hslot, hv⟩ := check_set.mp h
    refine (eval_safe hm hf v hv).bind fun o ho => ?_
    refine (Safe.need ho (hm.slotType? hf hslot)).bind fun c hc => ?_
    exact (Safe.writeSlot (hc ▸ hslot)).bind fun _ _ => .pure rfl
  | call function args result, h => by
    obtain ⟨hsignature, hargs⟩ := check_call.mp h
    have htypes : ∀ e ∈ args, e.type ≠ .void := fun e he =>
      hm.signature? hsignature e.type (List.mem_map_of_mem he)
    refine (evalArgs_safe hm hf args hargs htypes).bind fun cs _ => ?_
    exact .of_ok fun s => ⟨_, _, oracle.valueType_call function cs result s.world, rfl⟩
  | load t a, h => by
    obtain ⟨ha, haddress, haccess⟩ := check_load.mp h
    refine (eval_safe hm hf a ha).bind fun o ho => ?_
    refine (Safe.needI32 (ho.trans haddress)).bind fun address _ => ?_
    refine Safe.bind (P := fun _ => True) (.of_ok fun s => ⟨_, _, trivial, rfl⟩) fun memory _ => ?_
    refine (Safe.inBounds _).bind fun bits _ => ?_
    refine (Safe.need (Constant.valueType_ofBits haccess bits) ?_).bind fun c hc => .pure hc
    rcases haccess with rfl | rfl <;> nofun
  | store t a v, h => by
    obtain ⟨ha, haddress, haccess, hv, htype⟩ := check_store.mp h
    refine (eval_safe hm hf a ha).bind fun o ho => ?_
    refine (Safe.needI32 (ho.trans haddress)).bind fun address _ => ?_
    refine (eval_safe hm hf v hv).bind fun o' ho' => ?_
    have hne : t ≠ .void := by rcases haccess with rfl | rfl <;> nofun
    refine (Safe.need (ho'.trans htype) hne).bind fun c _ => ?_
    refine Safe.bind (P := fun _ => True) (.of_ok fun s => ⟨_, _, trivial, rfl⟩) fun memory _ => ?_
    refine (Safe.inBounds _).bind fun memory' _ => ?_
    exact Safe.bind (P := fun _ => True) (.of_ok fun s => ⟨_, _, trivial, rfl⟩) fun _ _ => .pure rfl
  | returnValue v, h => by
    obtain ⟨hv, htype⟩ := check_returnValue.mp h
    exact (eval_safe hm hf v hv).bind fun o ho => .exit (ho.trans htype)
  | returnNone, h => .exit (check_returnNone.mp h).symm
  | block l body, h => (evalAll_safe hm hf body h).untilBranch.bind fun _ _ => .pure rfl
  | loop l body, h => ((evalAll_safe hm hf body h).againOnBranch fuel).bind fun _ _ => .pure rfl
  | branchIf l c test, h => by
    obtain ⟨hl, hc, htype⟩ := check_branchIf.mp h
    refine (eval_safe hm hf c hc).bind fun o ho => ?_
    refine (Safe.needI32 (ho.trans htype)).bind fun v _ => ?_
    split
    · exact .exit hl
    · exact .pure rfl

/-- Checked arguments of storable types are safe, and have those types. -/
theorem evalArgs_safe (hm : m.Storable) (hf : f ∈ m.functions) {labels : List String} :
    ∀ es, checkAll m f labels es = .ok () → (∀ e ∈ es, e.type ≠ .void) →
      Safe f labels (fun cs => cs.map Constant.type = es.map type) (evalArgs oracle fuel es)
  | [], _, _ => .pure rfl
  | e :: es, h, htypes => by
    obtain ⟨he, hes⟩ := checkAll_cons.mp h
    obtain ⟨hetype, hestypes⟩ := List.forall_mem_cons.mp htypes
    refine (eval_safe hm hf e he).bind fun o ho => ?_
    refine (Safe.need ho hetype).bind fun c hc => ?_
    refine (evalArgs_safe hm hf es hes hestypes).bind fun cs hcs => .pure ?_
    rw [List.map_cons, List.map_cons, hc, hcs]

/-- Checked statements are safe. -/
theorem evalAll_safe (hm : m.Storable) (hf : f ∈ m.functions) {labels : List String} :
    ∀ es, checkAll m f labels es = .ok () →
      Safe f labels (fun _ => True) (evalAll oracle fuel es)
  | [], _ => .pure trivial
  | e :: es, h => by
    obtain ⟨he, hes⟩ := checkAll_cons.mp h
    exact (eval_safe hm hf e he).bind fun _ _ => evalAll_safe hm hf es hes

end

end Expr

/-- A checked function never gets stuck. -/
theorem Function.ending_runFrom_ne_stuck {σ : Type} {m : Module} (hm : m.Storable) {f : Function}
    (hf : f ∈ m.functions) (hcheck : Expr.checkAll m f [] f.body = .ok ()) (oracle : Oracle σ)
    {s : State (List Constant) σ} (hs : f.Typed s.store) (fuel : Nat) :
    (f.runFrom oracle s fuel).ending ≠ .stuck := by
  have hsound := Expr.evalAll_safe oracle fuel hm hf f.body hcheck s hs
  unfold runFrom
  generalize Expr.evalAll oracle fuel f.body s = result at hsound ⊢
  cases hsound with
  | ok value typed => nofun
  | @error e s' allowed typed =>
    cases e with
    | branch l => cases allowed
    | stuck => exact allowed.elim
    | _ => nofun

end CallFlow
