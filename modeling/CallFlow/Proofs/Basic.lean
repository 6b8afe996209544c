/-
Facts about steps that may fail, about lists of names and about the texts of numbers, for all
proofs.
-/
import Mathlib.Data.List.Forall2
import Mathlib.Data.List.Nodup

namespace CallFlow

-- ==================================================== steps that succeed

/-- A sequence succeeds exactly when each step does in turn. -/
@[simp]
theorem bind_eq_ok {ε α β : Type} {x : Except ε α} {f : α → Except ε β} {b : β} :
    (x >>= f) = .ok b ↔ ∃ a, x = .ok a ∧ f a = .ok b := by
  cases x with
  | error e =>
    constructor
    · intro h
      cases h
    · rintro ⟨a, h, -⟩
      cases h
  | ok a =>
    constructor
    · intro h
      exact ⟨a, rfl, h⟩
    · rintro ⟨a', h, h'⟩
      cases h
      exact h'

/-- A sequence fails exactly when a step does after those before it
succeeded. The step that fails is the first or one of the rest, never
both. -/
theorem bind_eq_error {ε α β : Type} {x : Except ε α} {f : α → Except ε β} {e : ε} :
    (x >>= f) = .error e ↔ x = .error e ∨ ∃ a, x = .ok a ∧ f a = .error e := by
  cases x with
  | error e' =>
    constructor
    · intro h
      cases h
      exact .inl rfl
    · intro h
      rcases h with h | ⟨a, h, -⟩
      · cases h
        rfl
      · cases h
  | ok a =>
    constructor
    · intro h
      exact .inr ⟨a, rfl, h⟩
    · intro h
      rcases h with h | ⟨a', h, h'⟩
      · cases h
      · cases h
        exact h'

@[simp]
theorem pure_eq_ok {ε α : Type} {a b : α} : (pure a : Except ε α) = .ok b ↔ a = b :=
  ⟨fun h => by cases h; rfl, fun h => by rw [h]; rfl⟩

/-- A check succeeds exactly when its condition holds. -/
theorem ite_eq_ok {ε : Type} {p : Prop} [Decidable p] {e : ε} {u : Unit} :
    (if p then .ok () else .error e) = Except.ok u ↔ p := by
  by_cases h : p
  · rw [if_pos h]
    exact ⟨fun _ => h, fun _ => rfl⟩
  · rw [if_neg h]
    exact ⟨nofun, fun h' => absurd h' h⟩

/-- A check for a fault succeeds exactly when there is none. -/
theorem ite_error_eq_ok {ε : Type} {p : Prop} [Decidable p] {e : ε} {u : Unit} :
    (if p then .error e else pure ()) = Except.ok u ↔ ¬p := by
  by_cases h : p
  · rw [if_pos h]
    exact ⟨nofun, fun h' => absurd h h'⟩
  · rw [if_neg h]
    exact ⟨fun _ => h, fun _ => rfl⟩

-- ======================================================= names in lists

/-- In a list of pairs without repeated keys, the lookup of a key finds
the pair that has it. -/
theorem lookup_eq_some_of_nodup {α β : Type} [BEq α] [LawfulBEq α] {l : List (α × β)}
    (h : (l.map Prod.fst).Nodup) {k : α} {b : β} : l.lookup k = some b ↔ (k, b) ∈ l := by
  rw [List.lookup_eq_some_iff]
  constructor
  · rintro ⟨l₁, l₂, rfl, -⟩
    exact List.mem_append_right _ List.mem_cons_self
  · intro hm
    obtain ⟨l₁, l₂, rfl⟩ := List.append_of_mem hm
    refine ⟨l₁, l₂, rfl, fun p hp => ?_⟩
    rw [List.map_append, List.nodup_append] at h
    have hne : p.1 ≠ k := h.2.2 p.1 (List.mem_map_of_mem hp) k List.mem_cons_self
    simpa using Ne.symm hne

/-- A name can be declared after a list of distinct names, and the rest
after it, exactly when all are distinct. -/
theorem nodup_append_cons {names rest : List String} {n : String} :
    n ∉ names ∧ ((names ++ [n]) ++ rest).Nodup ↔ (names ++ n :: rest).Nodup := by
  rw [List.append_assoc, List.singleton_append]
  refine ⟨And.right, fun h' => ⟨fun hn => ?_, h'⟩⟩
  rw [List.nodup_append] at h'
  exact h'.2.2 n hn n List.mem_cons_self rfl

/-- Behind the images of a list, the members of another are counted from
its length on. -/
theorem getElem?_map_append {α β : Type} (f : α → β) (as : List α) (bs : List β) (i : Nat) :
    (as.map f ++ bs)[as.length + i]? = bs[i]? := by
  rw [List.getElem?_append_right (by rw [List.length_map]; omega), List.length_map,
    Nat.add_sub_cancel_left]

-- =================================================== texts of numbers

/-- The text of a number that is not negative is its digits. -/
theorem toList_toString_ofNat (k : Nat) : (toString (Int.ofNat k)).toList = Nat.toDigits 10 k :=
  String.toList_ofList

/-- The text of a negative number is a sign and the digits of its
absolute value. -/
theorem toList_toString_negSucc (k : Nat) :
    (toString (Int.negSucc k)).toList = '-' :: Nat.toDigits 10 (k + 1) := by
  show ("-" ++ Nat.repr (k + 1)).toList = _
  rw [String.toList_append, Nat.repr, String.toList_ofList, String.toList_ofList]
  rfl

-- ======================================================= related lists

/-- Two lists in front of each other are related to what their parts
are. -/
theorem forall₂_append_left {α β : Type} {R : α → β → Prop} {as as' : List α} {bs : List β} :
    List.Forall₂ R (as ++ as') bs ↔
      ∃ cs cs', List.Forall₂ R as cs ∧ List.Forall₂ R as' cs' ∧ bs = cs ++ cs' := by
  induction as generalizing bs with
  | nil =>
    constructor
    · intro h
      exact ⟨[], bs, .nil, h, rfl⟩
    · rintro ⟨_, _, h, h', rfl⟩
      cases h
      exact h'
  | cons a as ih =>
    rw [List.cons_append, List.forall₂_cons_left_iff]
    constructor
    · rintro ⟨b, bs', hab, h, rfl⟩
      obtain ⟨cs, cs', hcs, hcs', rfl⟩ := ih.mp h
      exact ⟨b :: cs, cs', .cons hab hcs, hcs', rfl⟩
    · rintro ⟨_, cs', h, hcs', rfl⟩
      obtain ⟨b, cs, hab, hcs, rfl⟩ := List.forall₂_cons_left_iff.mp h
      exact ⟨b, cs ++ cs', hab, ih.mpr ⟨cs, cs', hcs, hcs', rfl⟩, rfl⟩

/-- Every member on the right is related to one on the left. -/
theorem exists_left_of_forall₂ {α β : Type} {R : α → β → Prop} {as : List α} {bs : List β}
    (h : List.Forall₂ R as bs) {b : β} (hb : b ∈ bs) : ∃ a ∈ as, R a b := by
  induction h with
  | nil => cases hb
  | @cons a b' as bs hab _ ih =>
    rcases List.mem_cons.mp hb with rfl | hb
    · exact ⟨a, List.mem_cons_self, hab⟩
    · obtain ⟨a', ha', hR⟩ := ih hb
      exact ⟨a', List.mem_cons_of_mem _ ha', hR⟩

/-- Every member on the left is related to one on the right. -/
theorem exists_right_of_forall₂ {α β : Type} {S : α → β → Prop} {as : List α} {bs : List β}
    (h : List.Forall₂ S as bs) {a : α} (ha : a ∈ as) : ∃ b ∈ bs, S a b :=
  exists_left_of_forall₂ (R := flip S) h.flip ha

/-- Members at the same place are related. -/
theorem rel_getElem? {α β : Type} {R : α → β → Prop} {as : List α} {bs : List β}
    (h : List.Forall₂ R as bs) (i : Nat) : Option.Rel R as[i]? bs[i]? := by
  induction h generalizing i with
  | nil =>
    rw [List.getElem?_nil, List.getElem?_nil]
    exact .none
  | cons hab _ ih =>
    cases i with
    | zero => exact .some hab
    | succ i => exact ih i

/-- A list has a list related to it exactly when each member has a
relative. -/
theorem exists_forall₂ {α β : Type} {R : α → β → Prop} {as : List α} :
    (∃ bs, List.Forall₂ R as bs) ↔ ∀ a ∈ as, ∃ b, R a b := by
  induction as with
  | nil => exact ⟨fun _ => List.forall_mem_nil _, fun _ => ⟨[], .nil⟩⟩
  | cons a as ih =>
    rw [List.forall_mem_cons, ← ih]
    constructor
    · intro h
      obtain ⟨_, h⟩ := h
      obtain ⟨b, bs, hab, hbs, rfl⟩ := List.forall₂_cons_left_iff.mp h
      exact ⟨⟨b, hab⟩, bs, hbs⟩
    · intro h
      obtain ⟨⟨b, hab⟩, bs, hbs⟩ := h
      exact ⟨b :: bs, .cons hab hbs⟩

/-- A relation through an image is a relation through a list of images.
The list of images is built along the relation, one member for each
pair. -/
theorem forall₂_iff_exists_map {α β γ : Type} {R : α → γ → Prop} {S : α → β → Prop} {g : β → γ}
    (h : ∀ a c, R a c ↔ ∃ b, S a b ∧ g b = c) {as : List α} {cs : List γ} :
    List.Forall₂ R as cs ↔ ∃ bs, List.Forall₂ S as bs ∧ bs.map g = cs := by
  induction as generalizing cs with
  | nil =>
    rw [List.forall₂_nil_left_iff]
    constructor
    · intro hcs
      exact ⟨[], .nil, hcs.symm⟩
    · intro hbs
      obtain ⟨_, hbs, rfl⟩ := hbs
      cases hbs
      rfl
  | cons a as ih =>
    rw [List.forall₂_cons_left_iff]
    constructor
    · intro hcs
      obtain ⟨c, cs', hc, hcs', rfl⟩ := hcs
      obtain ⟨b, hab, rfl⟩ := (h a c).mp hc
      obtain ⟨bs, hbs, rfl⟩ := ih.mp hcs'
      exact ⟨b :: bs, .cons hab hbs, rfl⟩
    · intro hbs
      obtain ⟨_, hbs, rfl⟩ := hbs
      obtain ⟨b, bs, hab, hrest, rfl⟩ := List.forall₂_cons_left_iff.mp hbs
      exact ⟨g b, bs.map g, (h a _).mpr ⟨b, hab, rfl⟩, ih.mpr ⟨bs, hrest, rfl⟩, rfl⟩

/-- A relation that is a function under a condition is so on lists. -/
theorem forall₂_map_left {α β γ : Type} {R : β → γ → Prop} {P : α → Prop} {g : α → β} {k : α → γ}
    (h : ∀ a c, R (g a) c ↔ P a ∧ c = k a) {as : List α} {cs : List γ} :
    List.Forall₂ R (as.map g) cs ↔ (∀ a ∈ as, P a) ∧ cs = as.map k := by
  induction as generalizing cs with
  | nil => rw [List.map_nil, List.forall₂_nil_left_iff]; simp
  | cons a as ih =>
    rw [List.map_cons, List.forall₂_cons_left_iff, List.forall_mem_cons, List.map_cons]
    constructor
    · rintro ⟨c, cs', hc, hcs, rfl⟩
      obtain ⟨ha, rfl⟩ := (h a c).mp hc
      obtain ⟨has, rfl⟩ := ih.mp hcs
      exact ⟨⟨ha, has⟩, rfl⟩
    · rintro ⟨⟨ha, has⟩, rfl⟩
      exact ⟨_, _, (h a _).mpr ⟨ha, rfl⟩, ih.mpr ⟨has, rfl⟩, rfl⟩

end CallFlow
