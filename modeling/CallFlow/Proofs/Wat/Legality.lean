/-
Which names and numbers in an emitted text the text format allows.

The grammar of the format has identifiers that are not empty, declarations of slots with an
identifier in front of the type or with types alone, and numbers for slots only where a slot is
read or written. Each of these is a condition on a list and its keyword, and a text is legal if
all its lists are. The lists of the code are those of its expressions (the one induction here), so
every condition is looked at for one expression at a time. Code is always legal, except for the
names of its callees. What remains are the declarations: a function without a name has an empty
identifier, and a slot whose name is not plain is declared under its number.
-/
import CallFlow.Proofs.Code.Soundness
import CallFlow.Proofs.Wat.Agreement

namespace CallFlow

namespace Wat

-- ============================================================ the grammar

/-- Whether an atom is an identifier: a dollar sign with a plain name or
with a text in quotes, neither of them empty. -/
def isIdentifier : Sexp → Bool
  | .word t =>
    match t.toList with
    | '$' :: name => isPlain (String.ofList name)
    | _ => false
  | .quoted bytes => !bytes.isEmpty
  | _ => false

/-- Whether an atom is the type of a value. -/
def isTypeName : Sexp → Bool
  | .word t => t = "i32" ∨ t = "i64" ∨ t = "f64"
  | _ => false

/-- Whether an atom is a number: it starts with a digit, or with one
behind a sign. -/
def isNumber : Sexp → Bool
  | .word t => (t.toList.dropWhile fun c => c == '+' || c == '-').head?.any Char.isDigit
  | _ => false

/-- A list that stands for a function names it by an identifier. -/
def namesFunction : List Sexp → Bool
  | .word keyword :: rest =>
    if keyword = "func" ∨ keyword = "call" then rest.head?.any isIdentifier else true
  | _ => true

/-- A declaration of slots has an identifier and a type, or types alone. -/
def declaresSlots : List Sexp → Bool
  | .word keyword :: rest =>
    if keyword = "param" ∨ keyword = "local" then
      match rest with
      | [name, type] => (isIdentifier name || isTypeName name) && isTypeName type
      | types => types.all isTypeName
    else true
  | _ => true

/-- Besides the limits of the memory and the literals, a number is only
the first operand of an access to a slot. -/
def placesNumbers : List Sexp → Bool
  | .word keyword :: rest =>
    if keyword = "memory" then true
    else if keyword ∈ ["local.get", "local.set", "i32.const", "i64.const", "f64.const"] then
      rest.tail.all fun s => !isNumber s
    else (Sexp.word keyword :: rest).all fun s => !isNumber s
  | items => items.all fun s => !isNumber s

-- ============================================================== all lists

namespace Sexp

mutual

/-- The items of each list in an s-expression. -/
def lists : Sexp → List (List Sexp)
  | list items => items :: listsAll items
  | _ => []

/-- The items of each list in s-expressions. -/
def listsAll : List Sexp → List (List Sexp)
  | [] => []
  | s :: ss => lists s ++ listsAll ss

end

@[simp]
theorem lists_word (t : String) : (word t).lists = [] := by
  simp [lists]

@[simp]
theorem lists_string (bytes : List UInt8) : (string bytes).lists = [] := by
  simp [lists]

@[simp]
theorem lists_quoted (bytes : List UInt8) : (quoted bytes).lists = [] := by
  simp [lists]

@[simp]
theorem lists_list (items : List Sexp) : (list items).lists = items :: listsAll items := by
  rw [lists]

/-- The lists inside expressions are those inside each of them. -/
theorem listsAll_eq (ss : List Sexp) : listsAll ss = ss.flatMap lists := by
  induction ss with
  | nil => rfl
  | cons s ss ih => rw [listsAll, ih, List.flatMap_cons]

/-- The lists inside a list are itself and those inside its items. -/
theorem mem_lists_list {items items' : List Sexp} :
    items' ∈ (list items).lists ↔ items' = items ∨ items' ∈ listsAll items := by
  rw [lists_list, List.mem_cons]

/-- Every list in an s-expression meets a condition. -/
def Every (P : List Sexp → Bool) (s : Sexp) : Prop :=
  ∀ items ∈ s.lists, P items = true

variable {P : List Sexp → Bool}

/-- An atom has no lists. -/
theorem every_of_lists {s : Sexp} (h : s.lists = []) : Every P s := by
  simp [Every, h]

/-- A property of all lists inside expressions is one of all lists
inside each of them. -/
theorem every_listsAll {ss : List Sexp} :
    (∀ items ∈ listsAll ss, P items = true) ↔ ∀ s ∈ ss, Every P s := by
  simp only [listsAll_eq, List.forall_mem_flatMap, Every]

/-- A property holds of all lists inside a list if it holds of the list
and of all lists inside its items. -/
@[simp]
theorem every_list {items : List Sexp} :
    Every P (list items) ↔ P items = true ∧ ∀ s ∈ items, Every P s := by
  rw [Every, lists_list, List.forall_mem_cons, every_listsAll]

end Sexp

-- ================================================================== atoms

variable {P : List Sexp → Bool}

@[simp]
theorem lists_symbol (name : String) : (symbol name).lists = [] := by
  unfold symbol
  split <;> simp

@[simp]
theorem lists_slot (f : Function) (i : Nat) : (slot f i).lists = [] := by
  rw [slot_eq_word, Sexp.lists_word]

@[simp]
theorem lists_text (s : String) : (string s).lists = [] := by
  rw [string, Sexp.lists_string]

@[simp]
theorem lists_label (name : String) : (label name).lists = [] := by
  rw [label, Sexp.lists_word]

theorem isPlain_ne {name : String} (h : isPlain name = true) : name ≠ "" := by
  rintro rfl
  cases h

/-- A plain name behind a dollar sign is an identifier. -/
theorem isIdentifier_dollar {name : String} (h : isPlain name = true) :
    isIdentifier (.word ("$" ++ name)) = true := by
  have hchars : ("$" ++ name).toList = '$' :: name.toList := by
    rw [String.toList_append]
    rfl
  simp [isIdentifier, hchars, h]

/-- A function has an identifier unless it has no name. -/
theorem isIdentifier_symbol (name : String) : isIdentifier (symbol name) = true ↔ name ≠ "" := by
  unfold symbol
  by_cases hplain : isPlain name = true
  · rw [if_pos hplain]
    exact ⟨fun _ => isPlain_ne hplain, fun _ => isIdentifier_dollar hplain⟩
  · have hempty : Text.utf8 name = [] ↔ name = "" :=
      ⟨fun h => Text.utf8_injective h, fun h => by rw [h]; rfl⟩
    rw [if_neg hplain]
    simp [isIdentifier, hempty]

/-- A word is a number if a digit stands behind its signs. -/
theorem isNumber_word (t : String) :
    isNumber (.word t)
      = (t.toList.dropWhile fun c => c == '+' || c == '-').head?.any Char.isDigit :=
  rfl

@[simp]
theorem isNumber_list (items : List Sexp) : isNumber (.list items) = false :=
  rfl

@[simp]
theorem isNumber_string (bytes : List UInt8) : isNumber (.string bytes) = false :=
  rfl

@[simp]
theorem isNumber_text (s : String) : isNumber (string s) = false :=
  rfl

@[simp]
theorem isNumber_symbol (name : String) : isNumber (symbol name) = false := by
  unfold symbol
  split
  · simp [isNumber, String.toList_append]
  · rfl

@[simp]
theorem isNumber_label (name : String) : isNumber (label name) = false := by
  simp [label, isNumber, String.toList_append]

/-- No folded expression is a number, not even that of a constant: it is
a list, with the number in it. -/
@[simp]
theorem isNumber_folded (f : Function) (e : Expr) : isNumber (folded f e) = false := by
  cases e with
  | const c => cases c <;> rfl
  | branchIf l c test => cases test <;> rfl
  | _ => rfl

/-- All types but the one without values are type names. -/
@[simp]
theorem isTypeName_name {t : ValueType} : isTypeName (.word t.name) = true ↔ t ≠ .void := by
  cases t <;> decide

@[simp]
theorem isNumber_name (t : ValueType) : isNumber (.word t.name) = false := by
  cases t <;> decide

end Wat

/-- A slot has a name that is plain. -/
def Function.NamesSlot (f : Function) (i : Nat) : Prop :=
  ∃ name, f.slotName? i = some name ∧ Wat.isPlain name = true

/-- Where there is a name for each slot, all slots have plain names if
the names are plain. -/
theorem Function.namesSlot_iff {f : Function} (h : f.slotNames.length = f.slotCount) :
    (∀ i < f.slotCount, f.NamesSlot i) ↔ ∀ name ∈ f.slotNames, Wat.isPlain name = true := by
  rw [← h, List.forall_mem_iff_forall_getElem]
  refine forall₂_congr fun i hi => ?_
  simp [NamesSlot, slotName?, List.getElem?_eq_getElem hi]

namespace Wat

/-- The number of a slot is a number, and neither an identifier nor a
type. -/
theorem atom_number (n : Nat) :
    isIdentifier (number n) = false ∧ isNumber (number n) = true
      ∧ isTypeName (number n) = false := by
  obtain ⟨c, cs, hcs⟩ : ∃ c cs, Nat.toDigits 10 n = c :: cs :=
    List.exists_cons_of_ne_nil Nat.toDigits_ne_nil
  have hmem : c ∈ Nat.toDigits 10 n := by
    rw [hcs]
    exact List.mem_cons_self
  have hdigit : c.isDigit = true := Nat.isDigit_of_mem_toDigits (by decide) (by decide) hmem
  have hchars : (toString n).toList = c :: cs := Nat.toList_repr.trans hcs
  have hne : ∀ d : Char, d.isDigit = false → c ≠ d := by
    rintro d hd rfl
    rw [hdigit] at hd
    cases hd
  have hword : ∀ t : String, t.toList.head?.any Char.isDigit = false → toString n ≠ t := by
    rintro t ht rfl
    rw [hchars, List.head?_cons, Option.any_some, hdigit] at ht
    cases ht
  refine ⟨?_, ?_, ?_⟩
  · simp only [isIdentifier, number, hchars]
    split
    next h => exact absurd (List.cons.inj h).1 (hne '$' (by decide))
    next => rfl
  · have hplus : c ≠ '+' := hne '+' (by decide)
    have hminus : c ≠ '-' := hne '-' (by decide)
    simp [isNumber, number, hcs, hplus, hminus, hdigit]
  · simp only [isTypeName, number, decide_eq_false_iff_not, not_or]
    exact ⟨hword _ (by decide), hword _ (by decide), hword _ (by decide)⟩

/-- A slot is an identifier if its name is plain; if not it is a number,
and no type. -/
theorem slot_cases (f : Function) (i : Nat) :
    (f.NamesSlot i ∧ isIdentifier (slot f i) = true ∧ isNumber (slot f i) = false)
      ∨ (¬ f.NamesSlot i ∧ isIdentifier (slot f i) = false ∧ isNumber (slot f i) = true
        ∧ isTypeName (slot f i) = false) := by
  unfold Function.NamesSlot slot
  cases hname : f.slotName? i with
  | none => exact .inr ⟨fun h => by simp at h, atom_number i⟩
  | some name =>
    by_cases hplain : isPlain name = true
    · simp only [if_pos hplain]
      exact .inl ⟨⟨name, rfl, hplain⟩, isIdentifier_dollar hplain, isNumber_label name⟩
    · simp only [if_neg hplain]
      refine .inr ⟨fun h => ?_, atom_number i⟩
      obtain ⟨name', hname', hplain'⟩ := h
      cases hname'
      exact hplain hplain'

-- =================================================================== code

/-- The items of a list that the folded form of an expression adds to
those of its operands. -/
inductive FoldedTo (f : Function) : Expr → List Sexp → Prop
  | self {e : Expr} {items : List Sexp} : folded f e = .list items → FoldedTo f e items
  | test {l : String} {c : Expr} :
    FoldedTo f (.branchIf l c .zero) [.word "i32.eqz", folded f c]

mutual

/-- Each list in the folded form of an expression is that of an
expression in it. So what is to be said of all lists in the text of code
can be said of one expression at a time. -/
theorem mem_lists_folded (f : Function) :
    ∀ e, ∀ items ∈ (folded f e).lists, ∃ e' ∈ e.walk, FoldedTo f e' items
  | .const c, items, h => by
    have hself : items ∈ (folded f (.const c)).lists → folded f (.const c) = .list items := by
      cases c <;> simp +contextual [folded, constant, Sexp.listsAll]
    exact ⟨_, Expr.mem_walk_self _, .self (hself h)⟩
  | .get i t, items, h => by
    obtain rfl : items = _ := by simpa [folded, Sexp.listsAll] using h
    exact ⟨_, Expr.mem_walk_self _, .self rfl⟩
  | .set i v, items, h => by
    rcases Sexp.mem_lists_list.mp h with rfl | h
    · exact ⟨_, Expr.mem_walk_self _, .self rfl⟩
    · obtain ⟨e', he', hto⟩ := mem_lists_folded f v items (by simpa [Sexp.listsAll] using h)
      exact ⟨e', List.mem_cons_of_mem _ he', hto⟩
  | .call g args t, items, h => by
    rcases Sexp.mem_lists_list.mp h with rfl | h
    · exact ⟨_, Expr.mem_walk_self _, .self rfl⟩
    · obtain ⟨e', he', hto⟩ := mem_listsAll_foldedAll f args items
        (by simpa [Sexp.listsAll] using h)
      exact ⟨e', List.mem_cons_of_mem _ he', hto⟩
  | .load t a, items, h => by
    rcases Sexp.mem_lists_list.mp h with rfl | h
    · exact ⟨_, Expr.mem_walk_self _, .self rfl⟩
    · obtain ⟨e', he', hto⟩ := mem_lists_folded f a items (by simpa [Sexp.listsAll] using h)
      exact ⟨e', List.mem_cons_of_mem _ he', hto⟩
  | .store t a v, items, h => by
    rcases Sexp.mem_lists_list.mp h with rfl | h
    · exact ⟨_, Expr.mem_walk_self _, .self rfl⟩
    · have h : items ∈ (folded f a).lists ∨ items ∈ (folded f v).lists := by
        simpa [Sexp.listsAll] using h
      rcases h with h | h
      · obtain ⟨e', he', hto⟩ := mem_lists_folded f a items h
        exact ⟨e', List.mem_cons_of_mem _ (List.mem_append_left _ he'), hto⟩
      · obtain ⟨e', he', hto⟩ := mem_lists_folded f v items h
        exact ⟨e', List.mem_cons_of_mem _ (List.mem_append_right _ he'), hto⟩
  | .returnValue v, items, h => by
    rcases Sexp.mem_lists_list.mp h with rfl | h
    · exact ⟨_, Expr.mem_walk_self _, .self rfl⟩
    · obtain ⟨e', he', hto⟩ := mem_lists_folded f v items (by simpa [Sexp.listsAll] using h)
      exact ⟨e', List.mem_cons_of_mem _ he', hto⟩
  | .returnNone, items, h => by
    obtain rfl : items = _ := by simpa [folded, Sexp.listsAll] using h
    exact ⟨_, Expr.mem_walk_self _, .self rfl⟩
  | .block l body, items, h => by
    rcases Sexp.mem_lists_list.mp h with rfl | h
    · exact ⟨_, Expr.mem_walk_self _, .self rfl⟩
    · obtain ⟨e', he', hto⟩ := mem_listsAll_foldedAll f body items
        (by simpa [Sexp.listsAll] using h)
      exact ⟨e', List.mem_cons_of_mem _ he', hto⟩
  | .loop l body, items, h => by
    rcases Sexp.mem_lists_list.mp h with rfl | h
    · exact ⟨_, Expr.mem_walk_self _, .self rfl⟩
    · obtain ⟨e', he', hto⟩ := mem_listsAll_foldedAll f body items
        (by simpa [Sexp.listsAll] using h)
      exact ⟨e', List.mem_cons_of_mem _ he', hto⟩
  | .branchIf l c .zero, items, h => by
    rcases Sexp.mem_lists_list.mp h with rfl | h
    · exact ⟨_, Expr.mem_walk_self _, .self rfl⟩
    · have h : items = [.word "i32.eqz", folded f c] ∨ items ∈ (folded f c).lists := by
        simpa [Sexp.listsAll] using h
      rcases h with rfl | h
      · exact ⟨_, Expr.mem_walk_self _, .test⟩
      · obtain ⟨e', he', hto⟩ := mem_lists_folded f c items h
        exact ⟨e', List.mem_cons_of_mem _ he', hto⟩
  | .branchIf l c .nonzero, items, h => by
    rcases Sexp.mem_lists_list.mp h with rfl | h
    · exact ⟨_, Expr.mem_walk_self _, .self rfl⟩
    · obtain ⟨e', he', hto⟩ := mem_lists_folded f c items (by simpa [Sexp.listsAll] using h)
      exact ⟨e', List.mem_cons_of_mem _ he', hto⟩

/-- A list in the text of statements is what one of the expressions in
them is folded to. -/
theorem mem_listsAll_foldedAll (f : Function) :
    ∀ es, ∀ items ∈ Sexp.listsAll (foldedAll f es), ∃ e' ∈ Expr.walkAll es, FoldedTo f e' items
  | [], items, h => absurd h List.not_mem_nil
  | e :: es, items, h => by
    rcases List.mem_append.mp h with h | h
    · obtain ⟨e', he', hto⟩ := mem_lists_folded f e items h
      exact ⟨e', List.mem_append_left _ he', hto⟩
    · obtain ⟨e', he', hto⟩ := mem_listsAll_foldedAll f es items h
      exact ⟨e', List.mem_append_right _ he', hto⟩

end

/-- Code declares no slots, and has its numbers in place. -/
theorem FoldedTo.legal {f : Function} {e : Expr} {items : List Sexp} (h : FoldedTo f e items) :
    declaresSlots items = true ∧ placesNumbers items = true := by
  cases h with
  | test => simp [declaresSlots, placesNumbers, isNumber_word]
  | self h =>
    cases e with
    | const c => cases c <;> (cases h; simp [declaresSlots, placesNumbers])
    | load t a =>
      cases h
      cases t <;> simp [declaresSlots, placesNumbers, ValueType.name, isNumber_word]
    | store t a v =>
      cases h
      cases t <;> simp [declaresSlots, placesNumbers, ValueType.name, isNumber_word]
    | branchIf l c test =>
      cases test <;> (cases h; simp [declaresSlots, placesNumbers, isNumber_word])
    | _ => cases h; simp [declaresSlots, placesNumbers, foldedAll_eq_map, isNumber_word]

/-- Code names a function only in a call. Calls are written with the
symbol of the callee, and no other form of code has one. -/
theorem FoldedTo.names {f : Function} {e : Expr} {items : List Sexp} (h : FoldedTo f e items)
    (hcall : ∀ g args t, e = .call g args t → g ≠ "") : namesFunction items = true := by
  cases h with
  | test => rfl
  | self h =>
    cases e with
    | const c => cases c <;> (cases h; rfl)
    | call g args t =>
      cases h
      exact (isIdentifier_symbol g).mpr (hcall g args t rfl)
    | load t a =>
      cases h
      cases t <;> rfl
    | store t a v =>
      cases h
      cases t <;> rfl
    | branchIf l c test => cases test <;> (cases h; rfl)
    | _ => cases h; rfl

/-- What holds of everything that an expression can be folded to holds
of all lists in the text of statements. -/
theorem every_foldedAll (f : Function) {es : List Expr}
    (h : ∀ e ∈ Expr.walkAll es, ∀ items, FoldedTo f e items → P items = true) :
    ∀ s ∈ foldedAll f es, s.Every P := by
  refine Sexp.every_listsAll.mp fun items hitems => ?_
  obtain ⟨e, he, hto⟩ := mem_listsAll_foldedAll f es items hitems
  exact h e he items hto

-- =========================================================== declarations

/-- The declaration of a slot is legal if the name of the slot is plain,
and has a number that is out of place if not. -/
theorem slotDeclaration_legal (f : Function) {keyword : String}
    (hkeyword : keyword = "param" ∨ keyword = "local") (i : Nat) {t : ValueType} (ht : t ≠ .void) :
    (declaresSlots [.word keyword, slot f i, .word t.name] = true ↔ f.NamesSlot i)
      ∧ (placesNumbers [.word keyword, slot f i, .word t.name] = true ↔ f.NamesSlot i) := by
  have htype : isTypeName (.word t.name) = true := isTypeName_name.mpr ht
  have hword : isNumber (.word keyword) = false := by
    rcases hkeyword with rfl | rfl <;> decide
  rcases slot_cases f i with ⟨hnames, hid, hnumber⟩ | ⟨hnames, hid, hnumber, hslot⟩
  · rcases hkeyword with rfl | rfl <;>
      simp [declaresSlots, placesNumbers, hword, htype, hnames, hid, hnumber]
  · rcases hkeyword with rfl | rfl <;>
      simp [declaresSlots, placesNumbers, hword, hnames, hid, hnumber, hslot]

/-- A result is legal. -/
theorem legal_result (t : ValueType) :
    ∀ s ∈ result t, s.Every namesFunction ∧ s.Every declaresSlots ∧ s.Every placesNumbers
      ∧ isNumber s = false := by
  intro s hs
  unfold result at hs
  split at hs
  · obtain rfl := List.mem_singleton.mp hs
    cases t <;> simp [Sexp.every_of_lists, namesFunction, declaresSlots, placesNumbers,
      ValueType.name, isNumber_word]
  · cases hs

/-- Types alone declare slots, if they are types of values. -/
theorem declaresSlots_types {ts : List ValueType} (h : ∀ t ∈ ts, t ≠ .void) :
    declaresSlots (.word "param" :: ts.map fun t => .word t.name) = true := by
  have htypes : (ts.map fun t => Sexp.word t.name).all isTypeName = true := by
    simpa using h
  simp only [declaresSlots, true_or, if_true]
  split
  next name type heq =>
    rw [heq] at htypes
    simp_all
  next => exact htypes

-- ================================================================= fields

/-- The function of an import. -/
def importedFunction (i : Import) : List Sexp :=
  .word "func" :: symbol i.name :: (if i.params.isEmpty then []
    else [.list (.word "param" :: i.params.map fun t => .word t.name)]) ++ result i.result

/-- An import as an expression, with the imported function as a list of
its own. -/
theorem sexp_importLine (i : Import) :
    (importLine i).sexp = .list [.word "import", string i.module, string i.base,
      .list (importedFunction i)] :=
  rfl

/-- An import has at most four lists. -/
theorem every_importLine {i : Import}
    (himport : P [.word "import", string i.module, string i.base,
      .list (importedFunction i)] = true)
    (hparams : i.params ≠ [] → P (.word "param" :: i.params.map fun t => .word t.name) = true)
    (hresult : ∀ s ∈ result i.result, s.Every P) :
    (importLine i).sexp.Every P ↔ P (importedFunction i) = true := by
  have hitems : ∀ s ∈ importedFunction i, s.Every P := by
    unfold importedFunction
    by_cases hempty : i.params = []
    · simpa [hempty, Sexp.every_of_lists] using hresult
    · simpa [hempty, Sexp.every_of_lists, hparams hempty, or_imp, forall_and] using hresult
  rw [sexp_importLine, Sexp.every_list, and_iff_right himport]
  constructor
  · intro h
    have hfunction := h (.list (importedFunction i)) (by simp)
    exact (Sexp.every_list.mp hfunction).1
  · intro h
    simpa [Sexp.every_of_lists, h] using hitems

/-- An import names its function exactly if the name is not empty. -/
theorem names_importLine (i : Import) :
    (importLine i).sexp.Every namesFunction ↔ i.name ≠ "" :=
  (every_importLine rfl (fun _ => rfl) fun s hs => (legal_result _ s hs).1).trans
    (isIdentifier_symbol i.name)

/-- An import declares parameters by their types, and only types with
values can be written. -/
theorem declares_importLine {i : Import} (h : ∀ t ∈ i.params, t ≠ .void) :
    (importLine i).sexp.Every declaresSlots :=
  (every_importLine rfl (fun _ => declaresSlots_types h)
    fun s hs => (legal_result _ s hs).2.1).mpr rfl

/-- An import has no number in a wrong place, as it has no numbers. -/
theorem numbers_importLine (i : Import) : (importLine i).sexp.Every placesNumbers := by
  have hresult := fun s hs => (legal_result i.result s hs).2.2
  refine (every_importLine ?_ (fun _ => ?_) fun s hs => (hresult s hs).1).mpr ?_
  · simp [placesNumbers, isNumber_word]
  · have hword : isNumber (.word "param") = false := by decide
    simp [placesNumbers, hword]
  · have hword : isNumber (.word "func") = false := by decide
    have hnone : ∀ s ∈ result i.result, isNumber s = false := fun s hs => (hresult s hs).2
    unfold importedFunction
    by_cases hempty : i.params = []
    · simpa [placesNumbers, hword, hempty] using hnone
    · simpa [placesNumbers, hword, hempty] using hnone

/-- The memory and its data are legal. -/
theorem legal_memoryLine (memory : Memory) :
    (memoryLine memory).sexp.Every namesFunction ∧ (memoryLine memory).sexp.Every declaresSlots
      ∧ (memoryLine memory).sexp.Every placesNumbers := by
  simp [memoryLine, Document.sexp, Sexp.every_of_lists, number, namesFunction,
    declaresSlots, placesNumbers, isNumber_word]

/-- The line of a segment passes all three checks, whatever its bytes
are. -/
theorem legal_segmentLine (s : Segment) :
    (segmentLine s).sexp.Every namesFunction ∧ (segmentLine s).sexp.Every declaresSlots
      ∧ (segmentLine s).sexp.Every placesNumbers := by
  simp [segmentLine, Document.sexp, Sexp.every_of_lists, number, namesFunction,
    declaresSlots, placesNumbers, isNumber_word]

/-- An export is legal if its function has a name. -/
theorem legal_exportLine (e : Export) :
    ((exportLine e).sexp.Every namesFunction ↔ e.function ≠ "")
      ∧ (exportLine e).sexp.Every declaresSlots ∧ (exportLine e).sexp.Every placesNumbers := by
  simp [exportLine, Document.sexp, Sexp.every_of_lists, namesFunction,
    declaresSlots, placesNumbers, isNumber_word, isIdentifier_symbol]

/-- Declarations of slots meet a condition if each of them does. -/
theorem every_slotDeclarations {f : Function} {keyword : String} {first : Nat}
    {ts : List ValueType} {Q : Nat → Prop}
    (h : ∀ i, ∀ t ∈ ts, P [.word keyword, slot f i, .word t.name] = true ↔ Q i) :
    (∀ s ∈ slotDeclarations f keyword first ts, s.Every P) ↔ ∀ k < ts.length, Q (first + k) := by
  have hone : ∀ i, ∀ t ∈ ts,
      (Sexp.list [.word keyword, slot f i, .word t.name]).Every P ↔ Q i := by
    intro i t ht
    rw [Sexp.every_list, ← h i t ht, and_iff_left]
    simp [Sexp.every_of_lists]
  rw [slotDeclarations, List.forall_mem_map]
  constructor
  · intro hall k hk
    have hget : ts[k]? = some ts[k] := List.getElem?_eq_getElem hk
    exact (hone _ _ (List.getElem_mem hk)).mp
      (hall (ts[k], k) (List.mem_zipIdx_iff_getElem?.mpr hget))
  · intro hall p hp
    obtain ⟨hk, heq⟩ := List.getElem?_eq_some_iff.mp (List.mem_zipIdx_iff_getElem?.mp hp)
    have hmem : p.1 ∈ ts := by
      rw [← heq]
      exact List.getElem_mem hk
    exact (hone _ _ hmem).mpr (hall p.2 hk)

/-- What holds of all slots holds of all parameters and of all locals,
which are numbered behind them. -/
theorem forall_slots {f : Function} {Q : Nat → Prop} :
    (∀ i < f.slotCount, Q i) ↔
      (∀ k < f.params.length, Q (0 + k)) ∧ ∀ k < f.locals.length, Q (f.params.length + k) := by
  unfold Function.slotCount
  constructor
  · intro h
    exact ⟨fun k hk => h _ (by omega), fun k hk => h _ (by omega)⟩
  · intro h i hi
    by_cases hparam : i < f.params.length
    · simpa using h.1 i hparam
    · have hlocal := h.2 (i - f.params.length) (by omega)
      rwa [Nat.add_sub_cancel' (Nat.le_of_not_lt hparam)] at hlocal

/-- The items of a function. -/
def functionItems (f : Function) : List Sexp :=
  .word "func" :: symbol f.name
    :: ((slotDeclarations f "param" 0 f.params
        ++ (result f.result ++ slotDeclarations f "local" f.params.length f.locals))
      ++ foldedAll f f.body)

/-- The lists of a function are its own, those of its declarations and
those of its code. -/
theorem every_function {f : Function} :
    (function f).sexp.Every P ↔
      P (functionItems f) = true ∧ (∀ s ∈ result f.result, s.Every P)
        ∧ ((∀ s ∈ slotDeclarations f "param" 0 f.params, s.Every P)
          ∧ ∀ s ∈ slotDeclarations f "local" f.params.length f.locals, s.Every P)
        ∧ ∀ s ∈ foldedAll f f.body, s.Every P := by
  rw [sexp_function_eq, Sexp.every_list]
  refine and_congr_right fun _ => ?_
  simp only [List.forall_mem_cons, List.forall_mem_append]
  constructor
  · intro h
    obtain ⟨-, -, ⟨hparams, hresult, hlocals⟩, hbody⟩ := h
    exact ⟨hresult, ⟨hparams, hlocals⟩, hbody⟩
  · intro h
    obtain ⟨hresult, ⟨hparams, hlocals⟩, hbody⟩ := h
    exact ⟨Sexp.every_of_lists (Sexp.lists_word _), Sexp.every_of_lists (lists_symbol _),
      ⟨hparams, hresult, hlocals⟩, hbody⟩

/-- A function is named legally if it has a name and its calls are named
legally. -/
theorem names_function (f : Function) :
    (function f).sexp.Every namesFunction ↔
      f.name ≠ "" ∧ ∀ s ∈ foldedAll f f.body, s.Every namesFunction := by
  have hslots : ∀ keyword, keyword = "param" ∨ keyword = "local" → ∀ first ts,
      ∀ s ∈ slotDeclarations f keyword first ts, s.Every namesFunction := by
    intro keyword hkeyword first ts
    refine (every_slotDeclarations (Q := fun _ => True) fun i t _ => ?_).mpr fun _ _ => trivial
    rcases hkeyword with rfl | rfl <;> exact iff_true_intro rfl
  rw [every_function, ← isIdentifier_symbol f.name]
  constructor
  · intro h
    exact ⟨h.1, h.2.2.2⟩
  · intro h
    exact ⟨h.1, fun s hs => (legal_result _ s hs).1,
      ⟨hslots _ (.inl rfl) _ _, hslots _ (.inr rfl) _ _⟩, h.2⟩

/-- What each declaration of a slot asks for is asked of the function,
if its code asks for nothing. -/
theorem every_function_iff {f : Function} {Q : Nat → Prop} (hitems : P (functionItems f) = true)
    (hresult : ∀ s ∈ result f.result, s.Every P)
    (hslots : ∀ keyword, keyword = "param" ∨ keyword = "local" → ∀ i, ∀ t ∈ f.params ++ f.locals,
      (P [.word keyword, slot f i, .word t.name] = true ↔ Q i))
    (hbody : ∀ s ∈ foldedAll f f.body, s.Every P) :
    (function f).sexp.Every P ↔ ∀ i < f.slotCount, Q i := by
  have hparams : (∀ s ∈ slotDeclarations f "param" 0 f.params, s.Every P) ↔ _ :=
    every_slotDeclarations fun i t ht => hslots _ (.inl rfl) i t (List.mem_append_left _ ht)
  have hlocals : (∀ s ∈ slotDeclarations f "local" f.params.length f.locals, s.Every P) ↔ _ :=
    every_slotDeclarations fun i t ht => hslots _ (.inr rfl) i t (List.mem_append_right _ ht)
  rw [every_function, and_iff_right hitems, and_iff_right hresult, and_iff_left hbody, hparams,
    hlocals, forall_slots]

section

variable {f : Function} (hvalues : ∀ t ∈ f.params ++ f.locals, t ≠ .void)

include hvalues in
/-- The text of a function declares its slots properly exactly if every
slot has a name that can be written. Others are written by number, which
is no declaration. -/
theorem declares_function :
    (function f).sexp.Every declaresSlots ↔ ∀ i < f.slotCount, f.NamesSlot i := by
  refine every_function_iff rfl (fun s hs => (legal_result _ s hs).2.1) ?_ ?_
  · intro keyword hkeyword i t ht
    exact (slotDeclaration_legal f hkeyword i (hvalues t ht)).1
  · exact every_foldedAll f fun e _ items hto => hto.legal.1

include hvalues in
/-- Numbers stand in their places under the same condition. -/
theorem numbers_function :
    (function f).sexp.Every placesNumbers ↔ ∀ i < f.slotCount, f.NamesSlot i := by
  have hdeclared : ∀ keyword first ts, ∀ s ∈ slotDeclarations f keyword first ts,
      isNumber s = false := by
    intro keyword first ts s hs
    obtain ⟨p, -, rfl⟩ := List.mem_map.mp hs
    rfl
  have hnone : ∀ s ∈ functionItems f, isNumber s = false := by
    simp only [functionItems, List.forall_mem_cons, List.forall_mem_append]
    exact ⟨by decide, isNumber_symbol f.name, ⟨hdeclared _ _ _,
      fun s hs => (legal_result _ s hs).2.2.2, hdeclared _ _ _⟩, by simp [foldedAll_eq_map]⟩
  refine every_function_iff ?_ (fun s hs => (legal_result _ s hs).2.2.1) ?_ ?_
  · show (functionItems f).all (fun s => !isNumber s) = true
    exact List.all_eq_true.mpr fun s hs => by rw [hnone s hs]; rfl
  · intro keyword hkeyword i t ht
    exact (slotDeclaration_legal f hkeyword i (hvalues t ht)).2
  · exact every_foldedAll f fun e _ items hto => hto.legal.2

end

-- ================================================================ modules

variable {m : Module}

/-- The lists of a module are those of its fields. -/
theorem every_fields :
    (∀ items ∈ Sexp.listsAll (fields m), P items = true) ↔
      (∀ i ∈ m.imports, (importLine i).sexp.Every P) ∧ (memoryLine m.memory).sexp.Every P
        ∧ (∀ s ∈ m.memory.segments, (segmentLine s).sexp.Every P)
        ∧ (∀ f ∈ m.functions, (function f).sexp.Every P)
        ∧ ∀ e ∈ m.exports, (exportLine e).sexp.Every P := by
  rw [Sexp.every_listsAll, fields]
  simp only [List.forall_mem_append, List.forall_mem_cons, List.forall_mem_map]
  constructor
  · intro h
    obtain ⟨⟨⟨himports, hmemory, hsegments⟩, hfunctions⟩, hexports⟩ := h
    exact ⟨himports, hmemory, hsegments, hfunctions, hexports⟩
  · intro h
    obtain ⟨himports, hmemory, hsegments, hfunctions, hexports⟩ := h
    exact ⟨⟨⟨himports, hmemory, hsegments⟩, hfunctions⟩, hexports⟩

/-- The functions of the text of a valid module have legal identifiers
exactly when none of them has the empty name. Names that are not plain
are quoted, and that leaves only the empty one. -/
theorem names_fields (hvalid : m.validate = .ok ()) :
    (∀ items ∈ Sexp.listsAll (fields m), namesFunction items = true) ↔
      ∀ name ∈ m.callables, name ≠ "" := by
  obtain ⟨-, -, hexports, hbodies⟩ := Module.validate_eq_ok.mp hvalid
  rw [every_fields, Module.callables, List.forall_mem_append, List.forall_mem_map,
    List.forall_mem_map]
  constructor
  · intro h
    obtain ⟨himports, -, -, hfunctions, -⟩ := h
    exact ⟨fun i hi => (names_importLine i).mp (himports i hi),
      fun f hf => ((names_function f).mp (hfunctions f hf)).1⟩
  · intro h
    have hcallables : ∀ name ∈ m.callables, name ≠ "" := by
      rwa [Module.callables, List.forall_mem_append, List.forall_mem_map, List.forall_mem_map]
    refine ⟨fun i hi => (names_importLine i).mpr (h.1 i hi), (legal_memoryLine _).1,
      fun s _ => (legal_segmentLine s).1, fun f hf => ?_, fun e he => ?_⟩
    · refine (names_function f).mpr ⟨h.2 f hf, every_foldedAll f fun e he items hto => ?_⟩
      refine hto.names fun g args t hcall => hcallables g ?_
      subst hcall
      -- The code is checked, so its callees are callable.
      obtain ⟨labels, hcheck⟩ := Expr.exists_check_of_mem_walkAll f.body
        (Module.checkBodies_eq_ok.mp hbodies f hf) _ he
      exact Module.mem_callables (Expr.check_call.mp hcheck).1
    · exact (legal_exportLine e).1.mpr
        (hcallables _ ((Module.checkExports_eq_ok.mp hexports).1 e he))

/-- The declarations of the text of a module are legal, and its numbers
in place, exactly when the names of all slots are plain. Slots are not
quoted but numbered where a name is not plain, and a number is not legal
in a declaration. -/
theorem slots_fields (hm : m.Storable) :
    ((∀ items ∈ Sexp.listsAll (fields m), declaresSlots items = true) ↔
        ∀ f ∈ m.functions, ∀ i < f.slotCount, f.NamesSlot i)
      ∧ ((∀ items ∈ Sexp.listsAll (fields m), placesNumbers items = true) ↔
        ∀ f ∈ m.functions, ∀ i < f.slotCount, f.NamesSlot i) := by
  constructor
  · rw [every_fields]
    constructor
    · intro h f hf
      exact (declares_function (hm.functions f hf)).mp (h.2.2.2.1 f hf)
    · intro h
      exact ⟨fun i hi => declares_importLine (hm.imports i hi), (legal_memoryLine _).2.1,
        fun s _ => (legal_segmentLine s).2.1,
        fun f hf => (declares_function (hm.functions f hf)).mpr (h f hf),
        fun e _ => (legal_exportLine e).2.1⟩
  · rw [every_fields]
    constructor
    · intro h f hf
      exact (numbers_function (hm.functions f hf)).mp (h.2.2.2.1 f hf)
    · intro h
      exact ⟨fun i _ => numbers_importLine i, (legal_memoryLine _).2.2,
        fun s _ => (legal_segmentLine s).2.2,
        fun f hf => (numbers_function (hm.functions f hf)).mpr (h f hf),
        fun e _ => (legal_exportLine e).2.2⟩

end Wat

end CallFlow
