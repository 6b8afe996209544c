/-
Where values and control go in checked code.

The checks of a module give every expression a type and look at each of them on its own. They do
not ask what becomes of the value of a statement, nor whether a body comes to a return. Both
questions are put to the code here.

# Values

What an expression leaves when it comes to its end has the type of the expression, so a statement
of type `void` leaves nothing. In a module whose slots and parameters all hold values the converse
holds as well: whatever has a type other than `void` comes to its end in some run, and leaves a
value there (`exists_value`).

# Control

`completes` says whether control may go on behind an expression, and `branches` whether a branch to
a label may leave it. A block goes on behind its body or behind a branch to its label, a loop only
behind its body, and nothing goes on behind a return. Neither looks at the values that branches are
taken for, so they allow more than can happen, never less (`completes_of_eval`).
-/
import CallFlow.Proofs.Code.Soundness
import CallFlow.Proofs.Wasm.Meaning

namespace CallFlow

-- ========================================================== statements

namespace Expr

mutual

/-- The statements inside an expression. -/
def innerStatements : Expr → List Expr
  | set _ v => innerStatements v
  | call _ args _ => argStatements args
  | load _ a => innerStatements a
  | store _ a v => innerStatements a ++ innerStatements v
  | returnValue v => innerStatements v
  | block _ body => statements body
  | loop _ body => statements body
  | branchIf _ c _ => innerStatements c
  | _ => []

/-- The statements inside arguments. -/
def argStatements : List Expr → List Expr
  | [] => []
  | e :: es => innerStatements e ++ argStatements es

/-- The expressions in the place of a statement: those of a body, and
those of every block and loop inside it. -/
def statements : List Expr → List Expr
  | [] => []
  | e :: es => e :: innerStatements e ++ statements es

end

mutual

/-- Whether an expression is tidy is a question about the statements
inside it, at every depth. -/
theorem isTidy_iff : ∀ e : Expr, e.isTidy = true ↔ ∀ e' ∈ innerStatements e, e'.type = .void
  | const _ => ⟨fun _ => List.forall_mem_nil _, fun _ => rfl⟩
  | get _ _ => ⟨fun _ => List.forall_mem_nil _, fun _ => rfl⟩
  | set _ v => isTidy_iff v
  | call _ args _ => areTidyArgs_iff args
  | load _ a => isTidy_iff a
  | store _ a v => by
    rw [isTidy, innerStatements, Bool.and_eq_true, isTidy_iff a, isTidy_iff v,
      List.forall_mem_append]
  | returnValue v => isTidy_iff v
  | returnNone => ⟨fun _ => List.forall_mem_nil _, fun _ => rfl⟩
  | block _ body => areTidy_iff body
  | loop _ body => areTidy_iff body
  | branchIf _ c _ => isTidy_iff c

/-- The same for the arguments of a call, which are no statements
themselves but may have some inside. -/
theorem areTidyArgs_iff : ∀ es : List Expr,
    areTidyArgs es = true ↔ ∀ e' ∈ argStatements es, e'.type = .void
  | [] => ⟨fun _ => List.forall_mem_nil _, fun _ => rfl⟩
  | e :: es => by
    rw [areTidyArgs, argStatements, Bool.and_eq_true, isTidy_iff e, areTidyArgs_iff es,
      List.forall_mem_append]

/-- A body is tidy exactly when everything in the place of a statement
has the type `void`. -/
theorem areTidy_iff : ∀ es : List Expr,
    areTidy es = true ↔ ∀ e' ∈ statements es, e'.type = .void
  | [] => ⟨fun _ => List.forall_mem_nil _, fun _ => rfl⟩
  | e :: es => by
    rw [areTidy, statements, Bool.and_eq_true, Bool.and_eq_true, decide_eq_true_eq, isTidy_iff e,
      areTidy_iff es, List.cons_append, List.forall_mem_cons, List.forall_mem_append, and_assoc]

end

mutual

/-- A statement inside an expression is met on the walk through it. -/
theorem mem_walk_of_inner : ∀ e : Expr, ∀ e' ∈ innerStatements e, e' ∈ e.walk
  | const _, _, h => absurd h List.not_mem_nil
  | get _ _, _, h => absurd h List.not_mem_nil
  | set _ v, e', h => List.mem_cons_of_mem _ (mem_walk_of_inner v e' h)
  | call _ args _, e', h => List.mem_cons_of_mem _ (mem_walkAll_of_args args e' h)
  | load _ a, e', h => List.mem_cons_of_mem _ (mem_walk_of_inner a e' h)
  | store _ a v, e', h => by
    rw [walk, List.cons_append, List.mem_cons, List.mem_append]
    rcases List.mem_append.mp h with h | h
    · exact .inr (.inl (mem_walk_of_inner a e' h))
    · exact .inr (.inr (mem_walk_of_inner v e' h))
  | returnValue v, e', h => List.mem_cons_of_mem _ (mem_walk_of_inner v e' h)
  | returnNone, _, h => absurd h List.not_mem_nil
  | block _ body, e', h => List.mem_cons_of_mem _ (mem_walkAll_of_statements body e' h)
  | loop _ body, e', h => List.mem_cons_of_mem _ (mem_walkAll_of_statements body e' h)
  | branchIf _ c _, e', h => List.mem_cons_of_mem _ (mem_walk_of_inner c e' h)

/-- Statements inside arguments are met on the walk through the
arguments. -/
theorem mem_walkAll_of_args : ∀ es : List Expr, ∀ e' ∈ argStatements es, e' ∈ walkAll es
  | [], _, h => absurd h List.not_mem_nil
  | e :: es, e', h => by
    rw [walkAll, List.mem_append]
    rcases List.mem_append.mp h with h | h
    · exact .inl (mem_walk_of_inner e e' h)
    · exact .inr (mem_walkAll_of_args es e' h)

/-- Statements are met on the walk through them, and so is what is
inside them. -/
theorem mem_walkAll_of_statements : ∀ es : List Expr, ∀ e' ∈ statements es, e' ∈ walkAll es
  | [], _, h => absurd h List.not_mem_nil
  | e :: es, e', h => by
    rw [statements, List.cons_append, List.mem_cons, List.mem_append] at h
    rw [walkAll, List.mem_append]
    rcases h with rfl | h | h
    · exact .inl e'.mem_walk_self
    · exact .inl (mem_walk_of_inner e e' h)
    · exact .inr (mem_walkAll_of_statements es e' h)

end

end Expr

-- ============================================================== values

namespace Eval

variable {ν σ α β : Type}

/-- A sequence that comes to its end has come to the end of each step. -/
theorem of_bind_ok {x : Eval ν σ α} {k : α → Eval ν σ β} {s s' : State ν σ} {b : β}
    (h : (x >>= k) s = (.ok b, s')) : ∃ a s₁, x s = (.ok a, s₁) ∧ k a s₁ = (.ok b, s') := by
  rcases hx : x s with ⟨e | a, s₁⟩
  · rw [bind_apply_error hx] at h
    cases h
  · rw [bind_apply_ok hx] at h
    exact ⟨a, s₁, rfl, h⟩

/-- A step that leaves only values with a property, whatever state it
starts in. -/
def Leaves (P : α → Prop) (x : Eval ν σ α) : Prop :=
  ∀ s a s', x s = (.ok a, s') → P a

namespace Leaves

variable {P : α → Prop} {Q : β → Prop}

theorem pure {a : α} (h : P a) : Leaves P (Pure.pure a : Eval ν σ α) := by
  intro s a' s' heval
  cases heval
  exact h

theorem exit (e : Exit) : Leaves P (Eval.exit e : Eval ν σ α) := by
  intro s a s' heval
  cases heval

/-- What the second of two steps leaves may depend on what the first
left. -/
theorem bind {x : Eval ν σ α} {k : α → Eval ν σ β} (hx : Leaves P x)
    (hk : ∀ a, P a → Leaves Q (k a)) : Leaves Q (x >>= k) := by
  intro s b s' heval
  obtain ⟨a, s₁, ha, hb⟩ := of_bind_ok heval
  exact hk a (hx s a s₁ ha) s₁ b s' hb

/-- Only the last step of a sequence decides what it leaves. -/
theorem behind {x : Eval ν σ α} {k : α → Eval ν σ β} (hk : ∀ a, Leaves Q (k a)) :
    Leaves Q (x >>= k) :=
  Leaves.bind (P := fun _ => True) (fun _ _ _ _ => trivial) fun a _ => hk a

/-- What must be there is what is left, if anything is. -/
theorem need (o : Option α) : Leaves (fun a => o = some a) (Eval.need o : Eval ν σ α) := by
  cases o with
  | none => exact exit .stuck
  | some a => exact pure rfl

end Leaves

end Eval

namespace Expr

variable {σ : Type} {m : Module} {f : Function} {labels : List String}

variable {oracle : Oracle σ} {fuel : Nat}

/-- What a checked expression leaves has its type, if it does not come
from a slot: a call is answered with the type that it asks for, and a
load has the type that it names. -/
theorem eval_leaves {e : Expr} (h : check m f labels e = .ok ()) (hget : ∀ i t, e ≠ get i t) :
    Eval.Leaves (fun v => valueType v = e.type) (eval oracle fuel e) := by
  cases e with
  | const c => exact .pure rfl
  | get i t => exact absurd rfl (hget i t)
  | set i v => exact .behind fun _ => .behind fun _ => .behind fun _ => .pure rfl
  | call function args result =>
    refine .behind fun cs => ?_
    intro s v s' heval
    cases heval
    exact oracle.valueType_call function cs result s.world
  | load t a =>
    obtain ⟨-, -, haccess⟩ := check_load.mp h
    refine .behind fun _ => .behind fun _ => .behind fun _ => .behind fun bits => ?_
    refine (Eval.Leaves.need _).bind fun c hc => .pure ?_
    rw [← hc, Constant.valueType_ofBits haccess]
    rfl
  | store t a v =>
    refine .behind fun _ => .behind fun _ => .behind fun _ => .behind fun _ => ?_
    exact .behind fun _ => .behind fun _ => .behind fun _ => .pure rfl
  | returnValue v => exact .behind fun _ => .exit _
  | returnNone => exact .exit _
  | block l body => exact .behind fun _ => .pure rfl
  | loop l body => exact .behind fun _ => .pure rfl
  | branchIf l c test =>
    refine .behind fun _ => .behind fun n => ?_
    split
    · exact .exit _
    · exact .pure rfl

/-- What a checked expression leaves has its type, if the slots have
theirs. -/
theorem valueType_of_eval {e : Expr} (h : check m f labels e = .ok ())
    {s s' : State (List Constant) σ} (hs : f.Typed s.store) {v : Option Constant}
    (heval : eval oracle fuel e s = (.ok v, s')) : valueType v = e.type := by
  by_cases hget : ∃ i t, e = get i t
  · obtain ⟨i, t, rfl⟩ := hget
    obtain ⟨c, s₁, hread, heval⟩ := Eval.of_bind_ok heval
    obtain ⟨c', hc', htype⟩ := hs.get (check_get.mp h)
    simp only [readSlot, hc'] at hread
    cases hread
    cases heval
    exact htype
  · exact eval_leaves h (fun i t he => hget ⟨i, t, he⟩) s v s' heval

end Expr

/-- A memory in which every address of 32 bits can be accessed. -/
def LinearMemory.Ample (memory : LinearMemory) : Prop :=
  0x100000008 ≤ memory.size

/-- Every access of a memory that is large enough for all addresses is
in bounds. -/
theorem LinearMemory.Ample.exists_read {memory : LinearMemory} (h : memory.Ample)
    {t : ValueType} (address : Int32) :
    ∃ bits, memory.read t.byteWidth (addressOf address) = some bits := by
  have haddress : addressOf address < 0x100000000 := address.toUInt32.toNat_lt
  have hwidth : t.byteWidth ≤ 8 := by cases t <;> decide
  unfold read
  unfold Ample at h
  rw [if_pos (by omega)]
  exact ⟨_, rfl⟩

namespace Expr

variable {σ : Type} (fuel : Nat) {m : Module} {f : Function}

/-- A step comes to its end with a value of a type, and leaves the slots
and the memory as they were. -/
def Yields {α : Type} (x : Eval (List Constant) σ α) (s : State (List Constant) σ)
    (P : α → Prop) : Prop :=
  ∃ a s', x s = (.ok a, s') ∧ P a ∧ s'.store = s.store ∧ s'.world.memory = s.world.memory

/-- Steps that keep store and memory and come to a value can be put one
behind the other. -/
theorem Yields.bind {α β : Type} {x : Eval (List Constant) σ α}
    {k : α → Eval (List Constant) σ β} {s : State (List Constant) σ} {P : α → Prop}
    {Q : β → Prop} (hx : Yields x s P)
    (hk : ∀ a s', P a → s'.store = s.store → s'.world.memory = s.world.memory →
      Yields (k a) s' Q) : Yields (x >>= k) s Q := by
  obtain ⟨a, s₁, hx, ha, hstore, hmemory⟩ := hx
  obtain ⟨b, s₂, hk, hb, hstore', hmemory'⟩ := hk a s₁ ha hstore hmemory
  refine ⟨b, s₂, ?_, hb, hstore'.trans hstore, hmemory'.trans hmemory⟩
  rw [Eval.bind_apply_ok hx, hk]

theorem Yields.pure {α : Type} {a : α} {s : State (List Constant) σ} {P : α → Prop} (h : P a) :
    Yields (Pure.pure a) s P :=
  ⟨a, s, rfl, h, rfl, rfl⟩

mutual

/-- A checked expression with a type other than `void` leaves a value in
some run: one in which every call is answered, and every address can be
read. -/
theorem exists_value (hm : m.Storable) {labels : List String} :
    ∀ e, check m f labels e = .ok () → e.type ≠ .void →
      ∀ s : State (List Constant) σ, f.Typed s.store → s.world.memory.Ample →
        Yields (eval (.zero σ) fuel e) s fun v => ∃ c, v = some c ∧ c.type = e.type
  | const c, _, _, _, _, _ => .pure ⟨c, rfl, rfl⟩
  | get i t, h, _, s, hs, _ => by
    obtain ⟨c, hc, htype⟩ := hs.get (check_get.mp h)
    have hread : readSlot i s = (.ok c, s) := by simp only [readSlot, hc]
    refine ⟨some c, s, ?_, ⟨c, rfl, htype⟩, rfl, rfl⟩
    rw [eval, Eval.bind_apply_ok hread]
    rfl
  | call function args result, h, htype, s, hs, hmemory => by
    obtain ⟨hsignature, hargs⟩ := check_call.mp h
    have htypes : ∀ e ∈ args, e.type ≠ .void := fun e he =>
      hm.signature? hsignature e.type (List.mem_map_of_mem he)
    refine (exists_values hm args hargs htypes s hs hmemory).bind fun cs s' _ _ _ => ?_
    obtain ⟨c, hc⟩ := exists_of_valueType_ne_void (v := (Answer.zero result).value)
      (by rw [(Answer.zero result).type_value]; exact htype)
    have hctype : c.type = result := by
      rw [← (Answer.zero result).type_value, hc]
      rfl
    exact ⟨_, _, rfl, ⟨c, hc, hctype⟩, rfl, rfl⟩
  | load t a, h, htype, s, hs, hmemory => by
    obtain ⟨ha, haddress, haccess⟩ := check_load.mp h
    have hvoid : a.type ≠ .void := by
      rw [haddress]
      nofun
    refine (exists_value hm a ha hvoid s hs hmemory).bind fun v s' hv hstore hmemory' => ?_
    obtain ⟨c, rfl, hc⟩ := hv
    obtain ⟨n, rfl⟩ := c.eq_i32_of_type (hc.trans haddress)
    obtain ⟨bits, hbits⟩ := (hmemory' ▸ hmemory).exists_read (t := t) n
    obtain ⟨c', hc'⟩ := exists_of_valueType_ne_void (v := Constant.ofBits t bits)
      (by rw [Constant.valueType_ofBits haccess]; exact htype)
    have hctype : c'.type = t := by
      rw [← Constant.valueType_ofBits haccess bits, hc']
      rfl
    refine ⟨some c', s', ?_, ⟨c', rfl, hctype⟩, rfl, rfl⟩
    rw [Eval.bind_apply_ok (by rfl), Eval.bind_apply_ok (by rfl), hbits,
      Eval.bind_apply_ok (by rfl), hc', Eval.bind_apply_ok (by rfl)]
    rfl
  | set _ _, _, htype, _, _, _ => absurd rfl htype
  | store _ _ _, _, htype, _, _, _ => absurd rfl htype
  | returnValue _, _, htype, _, _, _ => absurd rfl htype
  | returnNone, _, htype, _, _, _ => absurd rfl htype
  | block _ _, _, htype, _, _, _ => absurd rfl htype
  | loop _ _, _, htype, _, _, _ => absurd rfl htype
  | branchIf _ _ _, _, htype, _, _, _ => absurd rfl htype

/-- The arguments of a call come to values one by one, since none of
them changes the store or the memory that the next one needs. -/
theorem exists_values (hm : m.Storable) {labels : List String} :
    ∀ es, checkAll m f labels es = .ok () → (∀ e ∈ es, e.type ≠ .void) →
      ∀ s : State (List Constant) σ, f.Typed s.store → s.world.memory.Ample →
        Yields (evalArgs (.zero σ) fuel es) s fun _ => True
  | [], _, _, _, _, _ => .pure trivial
  | e :: es, h, htypes, s, hs, hmemory => by
    obtain ⟨he, hes⟩ := checkAll_cons.mp h
    obtain ⟨htype, htypes⟩ := List.forall_mem_cons.mp htypes
    refine (exists_value hm e he htype s hs hmemory).bind fun v s' hv hstore hmemory' => ?_
    obtain ⟨c, rfl, -⟩ := hv
    refine Yields.bind (P := fun _ => True) ⟨c, s', rfl, trivial, rfl, rfl⟩
      fun c' s'' _ hstore'' hmemory'' => ?_
    have hs'' : f.Typed s''.store := by rwa [hstore'', hstore]
    have hample : s''.world.memory.Ample := by rwa [hmemory'', hmemory']
    exact (exists_values hm es hes htypes s'' hs'' hample).bind fun _ _ _ _ _ => .pure trivial

end

end Expr

-- ============================================================= control

namespace Expr

mutual

/-- Whether a branch to a label may leave an expression. -/
def branches (l : String) : Expr → Bool
  | set _ v => branches l v
  | call _ args _ => branchAny l args
  | load _ a => branches l a
  | store _ a v => branches l a || branches l v
  | returnValue v => branches l v
  | block l' body => l' != l && branchAny l body
  | loop l' body => l' != l && branchAny l body
  | branchIf l' c _ => l' == l || branches l c
  | _ => false

/-- Whether a branch to a label may leave one of several expressions. -/
def branchAny (l : String) : List Expr → Bool
  | [] => false
  | e :: es => branches l e || branchAny l es

end

mutual

/-- Whether control may go on behind an expression. -/
def completes : Expr → Bool
  | set _ v => completes v
  | call _ args _ => completeAll args
  | load _ a => completes a
  | store _ a v => completes a && completes v
  | returnValue _ => false
  | returnNone => false
  | block l body => completeAll body || branchAny l body
  | loop _ body => completeAll body
  | branchIf _ c _ => completes c
  | _ => true

/-- Whether control may go on behind several expressions in order. -/
def completeAll : List Expr → Bool
  | [] => true
  | e :: es => completes e && completeAll es

end

end Expr

namespace Eval

variable {ν σ α β : Type}

/-- A step comes to its end in some state. -/
def Completes (x : Eval ν σ α) : Prop :=
  ∃ s a s', x s = (.ok a, s')

/-- A step is left by a branch to a label in some state. -/
def Branches (l : String) (x : Eval ν σ α) : Prop :=
  ∃ s s', x s = (.error (.branch l), s')

theorem Completes.of_bind {x : Eval ν σ α} {k : α → Eval ν σ β} (h : (x >>= k).Completes) :
    x.Completes ∧ ∃ a, (k a).Completes := by
  obtain ⟨s, b, s', h⟩ := h
  obtain ⟨a, s₁, hx, hk⟩ := of_bind_ok h
  exact ⟨⟨s, a, s₁, hx⟩, a, s₁, b, s', hk⟩

/-- A branch out of two steps is taken by one of them. -/
theorem Branches.of_bind {l : String} {x : Eval ν σ α} {k : α → Eval ν σ β}
    (h : (x >>= k).Branches l) : x.Branches l ∨ ∃ a, (k a).Branches l := by
  obtain ⟨s, s', h⟩ := h
  rcases hx : x s with ⟨e | a, s₁⟩
  · rw [bind_apply_error hx] at h
    cases h
    exact .inl ⟨s, s', hx⟩
  · rw [bind_apply_ok hx] at h
    exact .inr ⟨a, s₁, s', h⟩

/-- A step that no branch leaves. -/
def Straight (x : Eval ν σ α) : Prop :=
  ∀ l, ¬ x.Branches l

/-- Where the second step takes no branch, it is the first that did. -/
theorem Branches.of_bind_straight {l : String} {x : Eval ν σ α} {k : α → Eval ν σ β}
    (h : (x >>= k).Branches l) (hk : ∀ a, (k a).Straight) : x.Branches l := by
  rcases h.of_bind with hx | ⟨a, ha⟩
  · exact hx
  · exact absurd ha (hk a l)

namespace Straight

theorem pure (a : α) : Straight (Pure.pure a : Eval ν σ α) := by
  rintro l ⟨s, s', h⟩
  cases h

theorem bind {x : Eval ν σ α} {k : α → Eval ν σ β} (hx : x.Straight)
    (hk : ∀ a, (k a).Straight) : (x >>= k).Straight :=
  fun l h => hx l (h.of_bind_straight hk)

theorem need (o : Option α) : Straight (Eval.need o : Eval ν σ α) := by
  rintro l ⟨s, s', h⟩
  cases o <;> cases h

theorem needI32 (o : Option Constant) : Straight (Eval.needI32 o : Eval ν σ Int32) := by
  rintro l ⟨s, s', h⟩
  unfold Eval.needI32 at h
  split at h <;> cases h

theorem inBounds (o : Option α) : Straight (Eval.inBounds o : Eval ν σ α) := by
  rintro l ⟨s, s', h⟩
  cases o <;> cases h

theorem memory : Straight (Eval.memory : Eval ν σ LinearMemory) := by
  rintro l ⟨s, s', h⟩
  cases h

theorem setMemory (m : LinearMemory) : Straight (Eval.setMemory m : Eval ν σ Unit) := by
  rintro l ⟨s, s', h⟩
  cases h

theorem invoke (oracle : Oracle σ) (function : String) (args : List Constant)
    (result : ValueType) : Straight (Eval.invoke oracle function args result : Eval ν σ _) := by
  rintro l ⟨s, s', h⟩
  cases h

theorem returned (v : Option Constant) : Straight (Eval.exit (.returned v) : Eval ν σ α) := by
  rintro l ⟨s, s', h⟩
  cases h

theorem readSlot (i : Nat) : Straight (CallFlow.readSlot i : Eval _ σ _) := by
  rintro l ⟨s, s', h⟩
  unfold CallFlow.readSlot at h
  split at h <;> cases h

theorem writeSlot (i : Nat) (c : Constant) : Straight (CallFlow.writeSlot i c : Eval _ σ _) := by
  rintro l ⟨s, s', h⟩
  unfold CallFlow.writeSlot at h
  split at h <;> cases h

end Straight

-- What catches a branch to its label goes on there, and lets no other branch through.

/-- A block comes to its end behind its last statement or by a branch to
its label. -/
theorem Completes.of_untilBranch {l : String} {body : Eval ν σ Unit}
    (h : (untilBranch l body).Completes) : body.Completes ∨ body.Branches l := by
  obtain ⟨s, a, s', h⟩ := h
  by_cases hbranch : ∃ s', body s = (.error (.branch l), s')
  · obtain ⟨s₁, hbranch⟩ := hbranch
    exact .inr ⟨s, s₁, hbranch⟩
  · rcases hbody : body s with ⟨r, s₁⟩
    have hne : r ≠ .error (.branch l) := by
      rintro rfl
      exact hbranch ⟨s₁, hbody⟩
    rw [untilBranch_of_ne hbody hne] at h
    cases h
    exact .inl ⟨s, a, s', hbody⟩

/-- A branch out of a block is taken inside, and goes to another label. -/
theorem Branches.of_untilBranch {l l' : String} {body : Eval ν σ Unit}
    (h : (untilBranch l body).Branches l') : l ≠ l' ∧ body.Branches l' := by
  obtain ⟨s, s', h⟩ := h
  rcases hbody : body s with ⟨r, s₁⟩
  by_cases hr : r = .error (.branch l)
  · subst hr
    rw [untilBranch_of_branch hbody] at h
    cases h
  · rw [untilBranch_of_ne hbody hr] at h
    cases h
    refine ⟨?_, s, s', hbody⟩
    rintro rfl
    exact hr rfl

/-- A loop comes to its end only in a round that does: a branch to its
label starts another round. -/
theorem Completes.of_againOnBranch {l : String} {body : Eval ν σ Unit} {rounds : Nat}
    (h : (againOnBranch l body rounds).Completes) : body.Completes := by
  obtain ⟨s, a, s', h⟩ := h
  -- each round ends the loop or starts the next, so the last one is the end of the body
  induction rounds generalizing s with
  | zero => cases h
  | succ rounds ih =>
    rcases hbody : body s with ⟨r, s₁⟩
    by_cases hr : r = .error (.branch l)
    · subst hr
      rw [againOnBranch_of_branch hbody] at h
      exact ih s₁ h
    · rw [againOnBranch_of_ne hbody hr] at h
      cases h
      exact ⟨s, a, s', hbody⟩

/-- A branch out of a loop is taken in one of its rounds, and goes to
another label. -/
theorem Branches.of_againOnBranch {l l' : String} {body : Eval ν σ Unit} {rounds : Nat}
    (h : (againOnBranch l body rounds).Branches l') : l ≠ l' ∧ body.Branches l' := by
  obtain ⟨s, s', h⟩ := h
  induction rounds generalizing s with
  | zero => cases h
  | succ rounds ih =>
    rcases hbody : body s with ⟨r, s₁⟩
    by_cases hr : r = .error (.branch l)
    · subst hr
      rw [againOnBranch_of_branch hbody] at h
      exact ih s₁ h
    · rw [againOnBranch_of_ne hbody hr] at h
      cases h
      refine ⟨?_, s, s', hbody⟩
      rintro rfl
      exact hr rfl

end Eval

namespace Expr

variable {σ : Type} {oracle : Oracle σ} {fuel : Nat}

mutual

/-- A branch that leaves an evaluation is one that may leave the
expression. So the labels that an evaluation can branch to are found by
looking at the code, and no run has to be considered. -/
theorem branches_of_eval {l : String} :
    ∀ e, (eval oracle fuel e).Branches l → branches l e = true
  | const c, h => absurd h (Eval.Straight.pure _ l)
  | get i t, h => absurd h (((Eval.Straight.readSlot i).bind fun _ => .pure _) l)
  | set i v, h => branches_of_eval v (h.of_bind_straight fun o =>
      (Eval.Straight.need o).bind fun c => (Eval.Straight.writeSlot i c).bind fun _ => .pure _)
  | call function args result, h => branchAny_of_evalArgs args
      (h.of_bind_straight fun cs => .invoke oracle function cs result)
  | load t a, h => branches_of_eval a (h.of_bind_straight fun o =>
      (Eval.Straight.needI32 o).bind fun _ => Eval.Straight.memory.bind fun _ =>
        (Eval.Straight.inBounds _).bind fun _ => (Eval.Straight.need _).bind fun _ => .pure _)
  | store t a v, h => by
    rw [branches, Bool.or_eq_true]
    rcases h.of_bind with ha | ⟨o, h⟩
    · exact .inl (branches_of_eval a ha)
    · rcases h.of_bind with hn | ⟨n, h⟩
      · exact absurd hn (Eval.Straight.needI32 o l)
      · refine .inr (branches_of_eval v (h.of_bind_straight fun o' => ?_))
        exact (Eval.Straight.need o').bind fun _ => Eval.Straight.memory.bind fun _ =>
          (Eval.Straight.inBounds _).bind fun _ => (Eval.Straight.setMemory _).bind fun _ => .pure _
  | returnValue v, h => branches_of_eval v (h.of_bind_straight fun o => .returned o)
  | returnNone, h => absurd h (Eval.Straight.returned none l)
  | block l' body, h => by
    obtain ⟨hne, hbody⟩ := (h.of_bind_straight fun _ => .pure _).of_untilBranch
    rw [branches, Bool.and_eq_true, bne_iff_ne]
    exact ⟨hne, branchAny_of_evalAll body hbody⟩
  | loop l' body, h => by
    obtain ⟨hne, hbody⟩ := (h.of_bind_straight fun _ => .pure _).of_againOnBranch
    rw [branches, Bool.and_eq_true, bne_iff_ne]
    exact ⟨hne, branchAny_of_evalAll body hbody⟩
  | branchIf l' c test, h => by
    rw [branches, Bool.or_eq_true, beq_iff_eq]
    rcases h.of_bind with hc | ⟨o, h⟩
    · exact .inr (branches_of_eval c hc)
    · rcases h.of_bind with hn | ⟨n, s, s', h⟩
      · exact absurd hn (Eval.Straight.needI32 o l)
      · split at h
        · cases h
          exact .inl rfl
        · cases h

/-- A branch out of the arguments of a call is written in one of them. -/
theorem branchAny_of_evalArgs {l : String} :
    ∀ es, (evalArgs oracle fuel es).Branches l → branchAny l es = true
  | [], h => absurd h (Eval.Straight.pure _ l)
  | e :: es, h => by
    rw [branchAny, Bool.or_eq_true]
    rcases h.of_bind with he | ⟨o, h⟩
    · exact .inl (branches_of_eval e he)
    · rcases h.of_bind with hn | ⟨c, h⟩
      · exact absurd hn (Eval.Straight.need o l)
      · exact .inr (branchAny_of_evalArgs es (h.of_bind_straight fun _ => .pure _))

/-- A branch out of statements is written in one of them. -/
theorem branchAny_of_evalAll {l : String} :
    ∀ es, (evalAll oracle fuel es).Branches l → branchAny l es = true
  | [], h => absurd h (Eval.Straight.pure _ l)
  | e :: es, h => by
    rw [branchAny, Bool.or_eq_true]
    rcases h.of_bind with he | ⟨_, h⟩
    · exact .inl (branches_of_eval e he)
    · exact .inr (branchAny_of_evalAll es h)

end

mutual

/-- An evaluation that comes to its end is one behind which control may
go on. Read backwards: code behind which control may not go on never
comes to its end, whatever the state and the fuel are. -/
theorem completes_of_eval : ∀ e, (eval oracle fuel e).Completes → completes e = true
  | const c, _ => rfl
  | get i t, _ => rfl
  | set i v, h => completes_of_eval v h.of_bind.1
  | call function args result, h => completeAll_of_evalArgs args h.of_bind.1
  | load t a, h => completes_of_eval a h.of_bind.1
  | store t a v, h => by
    obtain ⟨ha, o, h⟩ := h.of_bind
    obtain ⟨-, n, h⟩ := h.of_bind
    rw [completes, Bool.and_eq_true]
    exact ⟨completes_of_eval a ha, completes_of_eval v h.of_bind.1⟩
  | returnValue v, h => by
    obtain ⟨-, o, s, a, s', h⟩ := h.of_bind
    cases h
  | returnNone, h => by
    obtain ⟨s, a, s', h⟩ := h
    cases h
  | block l body, h => by
    rw [completes, Bool.or_eq_true]
    rcases h.of_bind.1.of_untilBranch with hbody | hbody
    · exact .inl (completeAll_of_evalAll body hbody)
    · exact .inr (branchAny_of_evalAll body hbody)
  | loop l body, h => completeAll_of_evalAll body h.of_bind.1.of_againOnBranch
  | branchIf l c test, h => completes_of_eval c h.of_bind.1

/-- Arguments that come to values may complete. -/
theorem completeAll_of_evalArgs :
    ∀ es, (evalArgs oracle fuel es).Completes → completeAll es = true
  | [], _ => rfl
  | e :: es, h => by
    obtain ⟨he, o, h⟩ := h.of_bind
    obtain ⟨-, c, h⟩ := h.of_bind
    rw [completeAll, Bool.and_eq_true]
    exact ⟨completes_of_eval e he, completeAll_of_evalArgs es h.of_bind.1⟩

/-- Statements that come to their end may complete. -/
theorem completeAll_of_evalAll :
    ∀ es, (evalAll oracle fuel es).Completes → completeAll es = true
  | [], _ => rfl
  | e :: es, h => by
    obtain ⟨he, _, h⟩ := h.of_bind
    rw [completeAll, Bool.and_eq_true]
    exact ⟨completes_of_eval e he, completeAll_of_evalAll es h⟩

end

/-- Statements may complete if all of them may. -/
theorem completeAll_append (es es' : List Expr) :
    completeAll (es ++ es') = (completeAll es && completeAll es') := by
  induction es with
  | nil => rfl
  | cons e es ih => rw [List.cons_append, completeAll, completeAll, ih, Bool.and_assoc]

end Expr

-- =========================================================== functions

namespace Function

/-- Nothing in the place of a statement leaves a value, in any run and
from whatever values the slots hold. -/
def LeavesNoValue (f : Function) : Prop :=
  ∀ e ∈ Expr.statements f.body, ∀ (σ : Type) (oracle : Oracle σ) (fuel : Nat)
    (s s' : State (List Constant) σ) (v : Option Constant),
    f.Typed s.store → e.eval oracle fuel s = (.ok v, s') → v = none

/-- No run comes to the end of the body without a return. -/
def NeverRunsOff (f : Function) : Prop :=
  ∀ (σ : Type) (oracle : Oracle σ) (fuel : Nat) (s s' : State (List Constant) σ),
    Expr.evalAll oracle fuel f.body s ≠ (.ok (), s')

/-- A body that cannot complete never runs off its end, whatever its
state and its fuel are. -/
theorem neverRunsOff_of_completeAll {f : Function} (h : Expr.completeAll f.body = false) :
    f.NeverRunsOff := by
  intro σ oracle fuel s s' heval
  have hcompletes := Expr.completeAll_of_evalAll f.body ⟨s, (), s', heval⟩
  rw [h] at hcompletes
  cases hcompletes

variable {m : Module} {f : Function}

/-- Statements of type `void` leave no value. -/
theorem leavesNoValue_of_void (hcheck : Expr.checkAll m f [] f.body = .ok ())
    (h : ∀ e ∈ Expr.statements f.body, e.type = .void) : f.LeavesNoValue := by
  intro e he σ oracle fuel s s' v hs heval
  obtain ⟨labels, hlabels⟩ :=
    Expr.exists_check_of_mem_walkAll f.body hcheck e (Expr.mem_walkAll_of_statements _ e he)
  have htype := Expr.valueType_of_eval hlabels hs heval
  rw [h e he] at htype
  exact eq_none_of_valueType_void htype

/-- Where all slots hold values, a statement of another type leaves one.
This is what a checker of binaries asks for between two statements,
where the stack must be empty. -/
theorem void_of_leavesNoValue (hm : m.Storable) (hf : f ∈ m.functions)
    (hcheck : Expr.checkAll m f [] f.body = .ok ()) (h : f.LeavesNoValue) :
    ∀ e ∈ Expr.statements f.body, e.type = .void := by
  intro e he
  by_contra htype
  obtain ⟨labels, hlabels⟩ :=
    Expr.exists_check_of_mem_walkAll f.body hcheck e (Expr.mem_walkAll_of_statements _ e he)
  let s : State (List Constant) Unit :=
    { store := (f.params ++ f.locals).map ValueType.zero
      world := { host := (), memory := ⟨0x100000008, fun _ => 0⟩, calls := [] } }
  have hs : f.Typed s.store := by
    show ((f.params ++ f.locals).map ValueType.zero).map Constant.type = f.params ++ f.locals
    rw [List.map_map]
    refine (List.map_congr_left fun t ht => ?_).trans (List.map_id _)
    exact ValueType.type_zero (hm.functions f hf t ht)
  have hample : s.world.memory.Ample := Nat.le_refl _
  obtain ⟨v, s', heval, ⟨c, rfl, -⟩, -⟩ := Expr.exists_value 0 hm e hlabels htype s hs hample
  cases h e he Unit _ 0 s s' _ hs heval

end Function

end CallFlow
