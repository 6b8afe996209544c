/-
Reading what was written.

`Reads n r d a` says that a reader takes the value `a` from the text of a document, with `n` levels
of nesting inside it, and leaves what follows the text. Every text ends in front of a comma or a
line end, which no number continues over, and starts with a character that tells its kind, so the
readers compose: strings and numbers first, then lists, and last records, whose members are found
column by column (`Aligned`).
-/
import CallFlow.Json.Reader
import CallFlow.Json.Writer
import Mathlib.Tactic.IntervalCases

namespace CallFlow.Json

-- ============================================================= strings

theorem hexValue?_digitChar {n : Nat} (h : n < 16) : hexValue? (Nat.digitChar n) = some n := by
  interval_cases n <;> decide

/-- A control character is read back from its four digits. -/
theorem stringRest_hex4 {c : Char} (hc : c.toNat < 0x20) (cs : List Char) :
    stringRest (.hex none 0 0) (hex4 c.toNat ++ cs)
      = (stringRest .plain cs).map fun (s, rest) => (c :: s, rest) := by
  have hvalue : (((0 * 16 + c.toNat / 4096 % 16) * 16 + c.toNat / 256 % 16) * 16
      + c.toNat / 16 % 16) * 16 + c.toNat % 16 = c.toNat := by omega
  have hdone : hexDone none c.toNat = .ok (some c, .plain) := by
    rw [hexDone, if_neg (by omega), if_neg (by omega), Char.ofNat_toNat]
  have hdigit : ∀ n, hexValue? (Nat.digitChar (n % 16)) = some (n % 16) :=
    fun n => hexValue?_digitChar (Nat.mod_lt n (by decide))
  show stringRest (.hex none 0 0) (_ :: _ :: _ :: _ :: cs) = _
  simp only [stringRest, hdigit]
  rw [hvalue, hdone]
  rfl

/-- A character is read back from what stands for it. There are three
cases: an escape of two characters, an escape by number for the other
control characters, and the character itself. -/
theorem stringRest_stringChar (c : Char) (cs : List Char) :
    stringRest .plain (stringChar c ++ cs)
      = (stringRest .plain cs).map fun (s, rest) => (c :: s, rest) := by
  unfold stringChar
  by_cases hquote : c = '"'
  · subst hquote
    rfl
  by_cases hslash : c = '\\'
  · subst hslash
    rfl
  rw [if_neg hquote, if_neg hslash]
  by_cases hn : c = '\n'
  · subst hn
    rfl
  by_cases ht : c = '\t'
  · subst ht
    rfl
  by_cases hr : c = '\r'
  · subst hr
    rfl
  by_cases hb : c = '\x08'
  · subst hb
    rfl
  by_cases hf : c = '\x0c'
  · subst hf
    rfl
  rw [if_neg hn, if_neg ht, if_neg hr, if_neg hb, if_neg hf]
  by_cases hcontrol : c.toNat < 0x20
  · rw [if_pos hcontrol]
    exact stringRest_hex4 hcontrol cs
  · rw [if_neg hcontrol]
    show stringRest .plain (c :: cs) = _
    rw [stringRest, if_neg hquote, if_neg hslash, if_neg hcontrol]

/-- The text of a string is read back character by character up to the
quote that closes it, which no escaped character contains. -/
theorem stringRest_flatMap (s rest : List Char) :
    stringRest .plain (s.flatMap stringChar ++ '"' :: rest) = .ok (s, rest) := by
  induction s with
  | nil => rfl
  | cons c s ih =>
    rw [List.flatMap_cons, List.append_assoc, stringRest_stringChar, ih]
    rfl

-- ============================================================= numbers

/-- What may follow a value: nothing, a comma or a line end. -/
def Ends (rest : List Char) : Prop :=
  ∀ c ∈ rest.head?, c = ',' ∨ c = '\n'

theorem ends_nil : Ends [] := by
  intro c hc
  cases hc

theorem ends_comma (rest : List Char) : Ends (',' :: rest) := by
  intro c hc
  cases hc
  exact .inl rfl

theorem ends_newline (depth : Nat) (rest : List Char) : Ends (newline depth ++ rest) := by
  intro c hc
  cases hc
  exact .inr rfl

namespace Number

/-- Digits stop where the value ends. -/
theorem digits_append {ds rest : List Char} (h : ∀ c ∈ ds, c.isDigit = true) (hrest : Ends rest) :
    digits (ds ++ rest) = (ds, rest) := by
  have hstop : rest.takeWhile Char.isDigit = [] ∧ rest.dropWhile Char.isDigit = rest := by
    cases rest with
    | nil => exact ⟨rfl, rfl⟩
    | cons c rest =>
      have hc : c.isDigit = false := by
        rcases hrest c rfl with rfl | rfl
        · rfl
        · rfl
      exact ⟨List.takeWhile_cons_of_neg (by simp [hc]), List.dropWhile_cons_of_neg (by simp [hc])⟩
  rw [digits, List.takeWhile_append_of_pos h, List.dropWhile_append_of_pos h, hstop.1, hstop.2,
    List.append_nil]

/-- Digits that come to no more than a word are all gathered. -/
theorem gather_ofDigitChars {ds : List Char} {significand : Nat}
    (h : Nat.ofDigitChars 10 ds significand ≤ maxSignificand) :
    gather significand ds = (Nat.ofDigitChars 10 ds significand, []) := by
  induction ds generalizing significand with
  | nil => rfl
  | cons c ds ih =>
    have hnext : significand * 10 + digitValue c = 10 * significand + (c.toNat - '0'.toNat) := by
      rw [digitValue, Nat.mul_comm]
    rw [Nat.ofDigitChars_cons] at h ⊢
    have hle : 10 * significand + (c.toNat - '0'.toNat) ≤ maxSignificand := by
      refine Nat.le_trans ?_ h
      rw [Nat.ofDigitChars_eq_ofDigitChars_zero]
      have hpos : 0 < 10 ^ ds.length := Nat.pow_pos (by decide)
      exact Nat.le_trans (Nat.le_mul_of_pos_left _ hpos) (Nat.le_add_right _ _)
    rw [gather]
    simp only [hnext]
    rw [if_neg (Nat.not_lt.mpr hle), ih h]

/-- The digits of a number other than zero do not start with zero. A
number that did would be rejected by the reader. -/
theorem head?_toDigits {n : Nat} (h : 0 < n) : (Nat.toDigits 10 n).head? ≠ some '0' := by
  induction n using Nat.strongRecOn with
  | ind n ih =>
    rw [Nat.toDigits_eq_if (by decide)]
    split
    · next hlt => interval_cases n <;> decide
    · have hhead := ih (n / 10) (by omega) (by omega)
      obtain ⟨c, cs, hcs⟩ : ∃ c cs, Nat.toDigits 10 (n / 10) = c :: cs :=
        List.exists_cons_of_ne_nil Nat.toDigits_ne_nil
      rw [hcs] at hhead ⊢
      exact hhead

/-- Where nothing of a number follows, what was read so far is an
integer. -/
theorem readTail_integer (negative : Bool) (n : Nat) {rest : List Char} (hrest : Ends rest) :
    readTail negative n [] rest = .ok (integer negative n, rest) := by
  cases rest with
  | nil => rfl
  | cons c rest =>
    rcases hrest c rfl with rfl | rfl
    · rfl
    · rfl

/-- A number is read back from its digits. Zero is one digit; any other
number starts with another digit than zero and goes on as long as there
are digits. -/
theorem read_toDigits (negative : Bool) {n : Nat} (hn : n ≤ maxSignificand) {rest : List Char}
    (hrest : Ends rest) :
    read negative (Nat.toDigits 10 n ++ rest) = .ok (integer negative n, rest) := by
  have hdigits : digits (Nat.toDigits 10 n ++ rest) = (Nat.toDigits 10 n, rest) :=
    digits_append (fun c hc => Nat.isDigit_of_mem_toDigits (by decide) (by decide) hc) hrest
  have hgather : gather 0 (Nat.toDigits 10 n) = (n, []) := by
    rw [gather_ofDigitChars (by rwa [Nat.ofDigitChars_ten_toDigits]),
      Nat.ofDigitChars_ten_toDigits]
  unfold read
  rw [hdigits]
  dsimp only
  split
  · next heq => exact absurd heq Nat.toDigits_ne_nil
  · next heq =>
    rcases Nat.eq_zero_or_pos n with rfl | hpos
    · rw [Nat.toDigits_zero] at heq
      cases heq
    · exact absurd (by rw [heq]; rfl) (head?_toDigits hpos)
  · rw [hgather]
    exact readTail_integer negative n hrest

end Number

-- ============================================ readers, one by one

/-- A character that a written value can start with. -/
def isStart (c : Char) : Bool :=
  c == '"' || c == '[' || c == '\x7b' || c == '-' || c.isDigit

/-- A character that starts a value is none of those that do not. -/
theorem ne_of_isStart {c d : Char} (hc : isStart c = true) (hd : isStart d = false) : c ≠ d := by
  intro heq
  rw [heq, hd] at hc
  cases hc

/-- Nothing is skipped before a character that is no blank. -/
theorem skipBlank_cons {c : Char} (h : isBlank c = false) (cs : List Char) :
    skipBlank (c :: cs) = c :: cs :=
  List.dropWhile_cons_of_neg (by simp [h])

/-- Nothing is skipped before the first character of a value. -/
theorem skipBlank_start {c : Char} (h : isStart c = true) (cs : List Char) :
    skipBlank (c :: cs) = c :: cs := by
  refine skipBlank_cons ?_ cs
  simp [isBlank, ne_of_isStart h (d := ' ') (by decide), ne_of_isStart h (d := '\n') (by decide),
    ne_of_isStart h (d := '\t') (by decide), ne_of_isStart h (d := '\r') (by decide)]

/-- The line break and the indentation between two items are skipped. -/
theorem skipBlank_newline (depth : Nat) (cs : List Char) :
    skipBlank (newline depth ++ cs) = skipBlank cs := by
  refine List.dropWhile_append_of_pos ?_
  intro c hc
  rcases List.mem_cons.mp hc with rfl | hc
  · rfl
  · rw [List.eq_of_mem_replicate hc]
    rfl

/-- A reader gives a value and leaves the rest of the text. -/
def Gives {α : Type} (r : Reader α) (depth : Nat) (cs : List Char) (a : α) (rest : List Char) :
    Prop :=
  r depth cs = .ok (a, rest)

namespace Gives

variable {α β : Type} {r : Reader α} {depth : Nat} {cs rest rest' : List Char} {a : α} {b : β}

/-- A reader goes on behind what was read. -/
theorem bind {f : α → Reader β} (h : Gives r depth cs a rest)
    (h' : Gives (f a) depth rest b rest') : Gives (r >>= f) depth cs b rest' := by
  have hr : r depth cs = .ok (a, rest) := h
  unfold Gives
  dsimp only [Bind.bind]
  rw [hr]
  exact h'

theorem pure (depth : Nat) (cs : List Char) (a : α) : Gives (Pure.pure a) depth cs a cs :=
  rfl

/-- A reader whose answer is passed through a function reads the same. -/
theorem map (f : α → β) (h : Gives r depth cs a rest) : Gives (f <$> r) depth cs (f a) rest :=
  h.bind (.pure _ _ _)

/-- To look ahead skips blanks and takes nothing else away. -/
theorem peek? (depth : Nat) {c : Char} (h : skipBlank cs = c :: rest) :
    Gives Reader.peek? depth cs (some c) (c :: rest) := by
  show Except.ok ((skipBlank cs).head?, skipBlank cs) = _
  rw [h]
  rfl

theorem advance (depth : Nat) (c : Char) (cs : List Char) :
    Gives Reader.advance depth (c :: cs) () cs :=
  rfl

theorem stringTail (depth : Nat) (s : String) (rest : List Char) :
    Gives Reader.stringTail depth (s.toList.flatMap stringChar ++ '"' :: rest) s rest := by
  show (stringRest .plain (s.toList.flatMap stringChar ++ '"' :: rest)).map _ = _
  rw [stringRest_flatMap]
  show Except.ok (String.ofList s.toList, rest) = _
  rw [String.ofList_toList]

/-- One level deeper is allowed where there is a level left. -/
theorem nested (h : Gives r (depth + 1) cs a rest) :
    Gives (Reader.nested r) (depth + 2) cs a rest :=
  h

end Gives

/-- A reader takes a value from the text of a document. It may stand
behind blanks, at any indentation, and needs `n` more levels of nesting. -/
structure Reads {α : Type} (n : Nat) (r : Reader α) (d : Document) (a : α) : Prop where
  starts : ∀ level, ∃ c cs, d.pretty level = c :: cs ∧ isStart c = true
  read : ∀ {depth level cs rest}, n < depth → Ends rest → skipBlank cs = d.pretty level ++ rest →
    Gives r depth cs a rest

namespace Reads

variable {α : Type} {n m : Nat} {r : Reader α} {d : Document} {a : α}

/-- What is read under some depth is read under every larger one. -/
theorem mono (h : Reads n r d a) (hnm : n ≤ m) : Reads m r d a :=
  ⟨h.starts, fun hdepth => h.read (Nat.lt_of_le_of_lt hnm hdepth)⟩

/-- No blank stands in front of a text. -/
theorem skipBlank_pretty (h : Reads n r d a) (level : Nat) (rest : List Char) :
    skipBlank (d.pretty level ++ rest) = d.pretty level ++ rest := by
  obtain ⟨c, cs, hpretty, hc⟩ := h.starts level
  rw [hpretty]
  exact skipBlank_start hc _

/-- A value that may be `null` is read as it is. -/
theorem optional (h : Reads n r d a) : Reads n (.optional r) d (some a) := by
  refine ⟨h.starts, ?_⟩
  intro depth level cs rest hdepth hrest hcs
  obtain ⟨c, t, hpretty, hc⟩ := h.starts level
  have hnull : c ≠ 'n' := ne_of_isStart hc (by decide)
  have hread := h.read hdepth hrest (h.skipBlank_pretty level rest)
  rw [hpretty] at hcs hread
  unfold Reader.optional
  refine (Gives.peek? depth hcs).bind ?_
  split
  · next heq => exact absurd (Option.some.inj heq) hnull
  · exact hread.map some

end Reads

/-- The text of a string is its characters, escaped, between two quotes. -/
theorem stringText_append (s : String) (rest : List Char) :
    stringText s ++ rest = '"' :: (s.toList.flatMap stringChar ++ '"' :: rest) := by
  simp [stringText]

/-- A string is read back from the text that is written for it. -/
theorem reads_text (s : String) : Reads 0 Reader.text (.text s) s := by
  refine ⟨fun level => ⟨'"', s.toList.flatMap stringChar ++ ['"'], rfl, rfl⟩, ?_⟩
  intro depth level cs rest _ _ hcs
  rw [Document.pretty, stringText_append] at hcs
  unfold Reader.text
  exact (Gives.peek? depth hcs).bind ((Gives.advance depth _ _).bind (.stringTail depth s rest))

/-- A type is written as its name and read back from it, since different
types have different names. -/
theorem reads_valueType (t : ValueType) : Reads 0 Reader.valueType (.text t.name) t := by
  refine ⟨(reads_text t.name).starts, ?_⟩
  intro depth level cs rest _ _ hcs
  rw [Document.pretty, stringText_append] at hcs
  have hname : Gives (Reader.typeNamed t.name) depth rest t rest := by
    cases t <;> rfl
  unfold Reader.valueType
  exact (Gives.peek? depth hcs).bind
    ((Gives.advance depth _ _).bind ((Gives.stringTail depth t.name rest).bind hname))

/-- The first character of a number. -/
theorem toDigits_eq_cons (n : Nat) :
    ∃ c cs, Nat.toDigits 10 n = c :: cs ∧ c.isDigit = true ∧ c ≠ '-' := by
  obtain ⟨c, cs, hcs⟩ : ∃ c cs, Nat.toDigits 10 n = c :: cs :=
    List.exists_cons_of_ne_nil Nat.toDigits_ne_nil
  have hmem : c ∈ Nat.toDigits 10 n := by
    rw [hcs]
    exact List.mem_cons_self
  have hc : c.isDigit = true := Nat.isDigit_of_mem_toDigits (by decide) (by decide) hmem
  refine ⟨c, cs, hcs, hc, ?_⟩
  intro heq
  rw [heq] at hc
  cases hc

/-- A number is read back from its decimal digits; it fits, being
written for one that does. -/
theorem reads_natural (n : UInt64) :
    Reads 0 Reader.natural (.number (toString n.toNat)) n := by
  obtain ⟨c, t, ht, hc, hminus⟩ := toDigits_eq_cons n.toNat
  have htext : (toString n.toNat).toList = Nat.toDigits 10 n.toNat := String.toList_ofList
  refine ⟨fun level => ⟨c, t, ?_, by simp [isStart, hc]⟩, ?_⟩
  · rw [Document.pretty, htext, ht]
  intro depth level cs rest _ hrest hcs
  have hread : Number.read false (Nat.toDigits 10 n.toNat ++ rest) = .ok (.natural n.toNat, rest) :=
    Number.read_toDigits false (Nat.le_of_lt_succ n.toNat_lt) hrest
  have hword : Gives (Reader.ofExcept (Reader.wordOf (.natural n.toNat))) depth rest n rest := by
    show Except.ok (UInt64.ofNat n.toNat, rest) = _
    rw [UInt64.ofNat_toNat]
  rw [Document.pretty, htext, ht] at hcs
  rw [ht] at hread
  unfold Reader.natural
  refine (Gives.peek? depth hcs).bind ?_
  dsimp only
  rw [if_neg hminus, if_pos hc]
  exact Gives.bind hread hword

-- =============================================================== lists

section Lists

variable {α : Type} {depth : Nat} {cs rest : List Char} {c : Char}

/-- There is a first item if the list does not close at once. -/
theorem hasItem_first (hcs : skipBlank cs = c :: rest) (hc : c ≠ ']') :
    Gives (Reader.hasItem true) depth cs true (c :: rest) := by
  unfold Reader.hasItem
  refine (Gives.peek? depth hcs).bind ?_
  dsimp only
  rw [if_neg hc]
  rfl

theorem hasItem_next {t : List Char} (hcs : skipBlank cs = ',' :: t)
    (ht : skipBlank t = c :: rest) (hc : c ≠ ']') :
    Gives (Reader.hasItem false) depth cs true (c :: rest) := by
  unfold Reader.hasItem
  refine (Gives.peek? depth hcs).bind ((Gives.advance depth _ _).bind
    ((Gives.peek? depth ht).bind ?_))
  split
  · next heq => cases heq
  · next heq => exact absurd (Option.some.inj heq) hc
  · rfl

theorem hasItem_end (first : Bool) (hcs : skipBlank cs = ']' :: rest) :
    Gives (Reader.hasItem first) depth cs false (']' :: rest) := by
  unfold Reader.hasItem
  exact (Gives.peek? depth hcs).bind rfl

/-- One more item of a list. -/
theorem items_cons {r : Reader α} {budget : Nat} {first : Bool} {a : α} {as : List α}
    {cs₁ cs₂ : List Char} (hitem : Gives (Reader.hasItem first) depth cs true cs₁)
    (ha : Gives r depth cs₁ a cs₂) (has : Gives (Reader.items r budget false) depth cs₂ as rest) :
    Gives (Reader.items r (budget + 1) first) depth cs (a :: as) rest := by
  unfold Reader.items
  exact hitem.bind (ha.bind (has.bind (.pure _ _ _)))

/-- Items end where the list closes, whether or not there were some
before. -/
theorem items_end {r : Reader α} {budget : Nat} (first : Bool) (hcs : skipBlank cs = ']' :: rest) :
    Gives (Reader.items r (budget + 1) first) depth cs [] (']' :: rest) := by
  unfold Reader.items
  exact (hasItem_end first hcs).bind rfl

/-- What stands behind an item. -/
theorem ends_prettyItems (level outer : Nat) (ds : List Document) (rest : List Char) :
    Ends (Document.prettyItems level ds ++ (newline outer ++ rest)) := by
  cases ds with
  | nil => exact ends_newline outer rest
  | cons d ds =>
    rw [Document.prettyItems]
    exact ends_comma _

/-- Each item takes at least one character, so that a budget of one step
for every character is enough for all items. -/
theorem length_le_prettyItems (level : Nat) (ds : List Document) :
    ds.length ≤ (Document.prettyItems level ds).length := by
  induction ds with
  | nil => exact Nat.le_refl 0
  | cons d ds ih =>
    rw [Document.prettyItems]
    simp only [List.length_cons, List.length_append]
    omega

variable {n : Nat} {r : Reader α} {write : α → Document}

/-- The items after the first. The induction is over the items, and each
of them takes one step of the budget. -/
theorem items_prettyItems (hdepth : n < depth) (level outer : Nat) (rest : List Char)
    {as : List α} (has : ∀ a ∈ as, Reads n r (write a) a) {budget : Nat}
    (hbudget : as.length < budget) :
    Gives (Reader.items r budget false) depth
      (Document.prettyItems level (as.map write) ++ (newline outer ++ ']' :: rest)) as
      (']' :: rest) := by
  induction as generalizing budget with
  | nil =>
    obtain ⟨budget, rfl⟩ := Nat.exists_eq_succ_of_ne_zero (Nat.ne_of_gt hbudget)
    exact items_end false (skipBlank_newline outer _)
  | cons a as ih =>
    obtain ⟨budget, rfl⟩ := Nat.exists_eq_succ_of_ne_zero (Nat.ne_zero_of_lt hbudget)
    rw [List.forall_mem_cons] at has
    obtain ⟨c, t, hpretty, hc⟩ := has.1.starts level
    have hrest := ih has.2 (Nat.lt_of_succ_lt_succ hbudget)
    have hread := has.1.read hdepth (ends_prettyItems level outer (as.map write) (']' :: rest))
      (has.1.skipBlank_pretty level _)
    have hblank := skipBlank_newline level (Document.pretty level (write a)
      ++ (Document.prettyItems level (as.map write) ++ (newline outer ++ ']' :: rest)))
    rw [has.1.skipBlank_pretty] at hblank
    rw [hpretty, List.cons_append] at hread hblank
    rw [List.map_cons, Document.prettyItems, hpretty]
    simp only [List.cons_append, List.append_assoc]
    exact items_cons (hasItem_next (skipBlank_cons (by decide) _) hblank
      (ne_of_isStart hc (by decide))) hread hrest

/-- All items, behind the opening bracket. -/
theorem items_pretty (hdepth : n < depth) (level : Nat) (rest : List Char) {a : α} {as : List α}
    (ha : Reads n r (write a) a) (has : ∀ a ∈ as, Reads n r (write a) a) {budget : Nat}
    (hbudget : as.length + 1 < budget) :
    Gives (Reader.items r budget true) depth
      (newline (level + 1) ++ (Document.pretty (level + 1) (write a)
        ++ (Document.prettyItems (level + 1) (as.map write) ++ (newline level ++ ']' :: rest))))
      (a :: as) (']' :: rest) := by
  obtain ⟨budget, rfl⟩ := Nat.exists_eq_succ_of_ne_zero (Nat.ne_zero_of_lt hbudget)
  obtain ⟨c, t, hpretty, hc⟩ := ha.starts (level + 1)
  have hread := ha.read hdepth (ends_prettyItems (level + 1) level (as.map write) (']' :: rest))
    (ha.skipBlank_pretty (level + 1) _)
  rw [hpretty] at hread ⊢
  refine items_cons (hasItem_first ?_ (ne_of_isStart hc (by decide))) hread
    (items_prettyItems hdepth (level + 1) level rest has (Nat.lt_of_succ_lt_succ hbudget))
  rw [skipBlank_newline]
  exact skipBlank_start hc _

/-- A list is read from its items. -/
theorem list_of_items {as : List α} {t : List Char} (hcs : skipBlank cs = '[' :: t)
    (hitems : Gives (Reader.items r t.length true) (depth + 1) t as (']' :: rest)) :
    Gives (Reader.list r) (depth + 2) cs as rest := by
  have hall : Gives (fun depth cs => Reader.items r cs.length true depth cs) (depth + 1) t as
      (']' :: rest) := hitems
  have hend : Gives Reader.endList (depth + 1) (']' :: rest) () rest := rfl
  unfold Reader.list
  exact (Gives.peek? _ hcs).bind (Gives.nested ((Gives.advance _ _ _).bind
    (hall.bind (hend.bind (.pure _ _ _)))))

/-- A list is read back if each of its items is, one level further down.
An empty list is written on one line, and any other over several. -/
theorem Reads.list {as : List α} (has : ∀ a ∈ as, Reads n r (write a) a) :
    Reads (n + 1) (.list r) (.list (as.map write)) as := by
  refine ⟨fun level => ?_, ?_⟩
  · cases as with
    | nil => exact ⟨'[', [']'], by rw [List.map_nil, Document.pretty], rfl⟩
    | cons a as => exact ⟨'[', _, by rw [List.map_cons, Document.pretty]; rfl, rfl⟩
  intro depth level cs rest hdepth hrest hcs
  obtain ⟨depth, rfl⟩ : ∃ k, depth = k + 2 := ⟨depth - 2, by omega⟩
  cases as with
  | nil =>
    rw [List.map_nil, Document.pretty] at hcs
    exact list_of_items hcs (items_end true (skipBlank_cons (by decide) rest))
  | cons a as =>
    rw [List.forall_mem_cons] at has
    have hlength := length_le_prettyItems (level + 1) (as.map write)
    have ht : skipBlank cs = '[' :: (newline (level + 1) ++ (Document.pretty (level + 1) (write a)
        ++ (Document.prettyItems (level + 1) (as.map write)
          ++ (newline level ++ ']' :: rest)))) := by
      rw [hcs, List.map_cons, Document.pretty]
      simp
    refine list_of_items ht (items_pretty (by omega) level rest has.1 has.2 ?_)
    simp only [newline, List.length_append, List.length_cons, List.length_map] at hlength ⊢
    omega

end Lists

-- ============================================================= records

section Records

variable {depth : Nat} {cs rest : List Char} {key : String}

/-- The key of the first member of an object is read where the object
opens. -/
theorem key?_first (hcs : skipBlank cs = stringText key ++ rest) :
    Gives (Reader.key? true) depth cs (some key) rest := by
  rw [stringText_append] at hcs
  unfold Reader.key?
  exact (Gives.peek? depth hcs).bind
    ((Gives.advance depth _ _).bind ((Gives.stringTail depth key rest).map some))

theorem key?_next {t : List Char} (hcs : skipBlank cs = ',' :: t)
    (ht : skipBlank t = stringText key ++ rest) :
    Gives (Reader.key? false) depth cs (some key) rest := by
  rw [stringText_append] at ht
  unfold Reader.key?
  exact (Gives.peek? depth hcs).bind ((Gives.advance depth _ _).bind ((Gives.peek? depth ht).bind
    ((Gives.advance depth _ _).bind ((Gives.stringTail depth key rest).map some))))

theorem key?_end (first : Bool) (hcs : skipBlank cs = '\x7d' :: rest) :
    Gives (Reader.key? first) depth cs none ('\x7d' :: rest) := by
  unfold Reader.key?
  exact (Gives.peek? depth hcs).bind rfl

/-- A member goes into the first column of its name, and there only
once. -/
theorem member_cons (key : String) (c : Column) (columns : List Column) (cell : Option c.type)
    (row : Row columns) :
    Reader.member key (c :: columns) (cell, row)
      = if key = c.name then
          match cell with
          | some _ => Reader.fail (.duplicateField key)
          | none => Reader.colon >>= fun _ => c.read >>= fun value => pure (some value, row)
        else Reader.member key columns row >>= fun row => pure (cell, row) :=
  rfl

/-- A member is read into the cell of its column. -/
theorem member_head {c : Column} {columns : List Column} (row : Row columns) {a : c.type}
    (h : Gives c.read depth cs a rest) :
    Gives (Reader.member c.name (c :: columns) (none, row)) depth (':' :: cs) (some a, row)
      rest := by
  have hcolon : Gives Reader.colon depth (':' :: cs) () cs := rfl
  rw [member_cons, if_pos rfl]
  exact hcolon.bind (h.bind (.pure _ _ _))

/-- The cells of other columns stay as they are. -/
theorem member_tail {c : Column} {columns : List Column} {row row' : Row columns}
    (cell : Option c.type) (hkey : key ≠ c.name)
    (h : Gives (Reader.member key columns row) depth cs row' rest) :
    Gives (Reader.member key (c :: columns) (cell, row)) depth cs (cell, row') rest := by
  rw [member_cons, if_neg hkey]
  exact h.bind (.pure _ _ _)

/-- A member that is read and stored is followed by the others. -/
theorem members_cons {columns : List Column} {row row' row'' : Row columns} {budget : Nat}
    {first : Bool} {cs₁ cs₂ : List Char} (hkey : Gives (Reader.key? first) depth cs (some key) cs₁)
    (hmember : Gives (Reader.member key columns row) depth cs₁ row' cs₂)
    (hrest : Gives (Reader.members columns budget false row') depth cs₂ row'' rest) :
    Gives (Reader.members columns (budget + 1) first row) depth cs row'' rest := by
  unfold Reader.members
  exact hkey.bind (hmember.bind hrest)

theorem members_end {columns : List Column} (row : Row columns) {budget : Nat} (first : Bool)
    (hcs : skipBlank cs = '\x7d' :: rest) :
    Gives (Reader.members columns (budget + 1) first row) depth cs row ('\x7d' :: rest) := by
  unfold Reader.members
  exact (key?_end first hcs).bind rfl

/-- The members of an object in the order of the columns, and the row
that they make. A column may have no member. -/
inductive Aligned (n : Nat) :
    (columns : List Column) → List (String × Document) → Row columns → Prop
  | nil : Aligned n [] [] ()
  | present {m : Nat} {c : Column} {columns : List Column} {d : Document} {a : c.type}
      {ms : List (String × Document)} {row : Row columns} (nesting : m ≤ n)
      (value : Reads m c.read d a) (rest : Aligned n columns ms row) :
      Aligned n (c :: columns) ((c.name, d) :: ms) (some a, row)
  | absent {c : Column} {columns : List Column} {ms : List (String × Document)}
      {row : Row columns} (rest : Aligned n columns ms row) :
      Aligned n (c :: columns) ms (none, row)

/-- Rows of the last columns stand for rows of all of them, with the
first cells given, and members of the last columns are read into them
alike. -/
def Embeds (last columns : List Column) (embed : Row last → Row columns) : Prop :=
  ∀ key ∈ last.map Column.name, ∀ {depth cs rest row row'},
    Gives (Reader.member key last row) depth cs row' rest →
      Gives (Reader.member key columns (embed row)) depth cs (embed row') rest

/-- A row of the columns from `c` on is a row of those behind `c` once
the cell of `c` is chosen; other names do not touch that cell. -/
theorem Embeds.cell {c : Column} {last columns : List Column}
    {embed : Row (c :: last) → Row columns} (h : Embeds (c :: last) columns embed)
    (hc : c.name ∉ last.map Column.name) (cell : Option c.type) :
    Embeds last columns fun row => embed (cell, row) := by
  intro key hkey depth cs rest row row' hrow
  have hne : key ≠ c.name := by
    intro heq
    exact hc (heq ▸ hkey)
  exact h key (List.mem_cons_of_mem _ hkey) (member_tail cell hne hrow)

/-- Behind the members of an object a number is over: another member or
the end of the object follows. -/
theorem ends_prettyMembers (level outer : Nat) (ms : List (String × Document)) (rest : List Char) :
    Ends (Document.prettyMembers level ms ++ (newline outer ++ rest)) := by
  cases ms with
  | nil => exact ends_newline outer rest
  | cons m ms =>
    rw [Document.prettyMembers]
    exact ends_comma _

/-- Each member takes at least one character, as each item does. -/
theorem length_le_prettyMembers (level : Nat) (ms : List (String × Document)) :
    ms.length ≤ (Document.prettyMembers level ms).length := by
  induction ms with
  | nil => exact Nat.le_refl 0
  | cons m ms ih =>
    rw [Document.prettyMembers]
    simp only [List.length_cons, List.length_append]
    omega

variable {n : Nat}

/-- A member with its value, behind its key. -/
theorem member_pretty {m : Nat} (hdepth : n < depth) (hm : m ≤ n) (level : Nat) {c : Column}
    {columns : List Column} {d : Document} {a : c.type} (row : Row columns)
    (hvalue : Reads m c.read d a) (hrest : Ends rest) :
    Gives (Reader.member c.name (c :: columns) (none, row)) depth
      (':' :: ' ' :: (d.pretty level ++ rest)) (some a, row) rest := by
  have hblank : skipBlank (' ' :: (d.pretty level ++ rest)) = d.pretty level ++ rest :=
    hvalue.skipBlank_pretty level rest
  exact member_head row ((hvalue.mono hm).read hdepth hrest hblank)

/-- The members after the first. Each of them is read into the cell of
its own column, and the cells that were filled before stay as they are. -/
theorem members_prettyMembers (hdepth : n < depth) (level outer : Nat) (rest : List Char)
    {columns last : List Column} {ms : List (String × Document)} {row : Row last}
    (h : Aligned n last ms row) (hnodup : (last.map Column.name).Nodup)
    {embed : Row last → Row columns} (hembed : Embeds last columns embed) {budget : Nat}
    (hbudget : ms.length < budget) :
    Gives (Reader.members columns budget false (embed (Row.empty last))) depth
      (Document.prettyMembers level ms ++ (newline outer ++ '\x7d' :: rest)) (embed row)
      ('\x7d' :: rest) := by
  induction h generalizing budget with
  | nil =>
    obtain ⟨budget, rfl⟩ := Nat.exists_eq_succ_of_ne_zero (Nat.ne_zero_of_lt hbudget)
    exact members_end _ false (skipBlank_newline outer _)
  | absent _ ih =>
    rw [List.map_cons, List.nodup_cons] at hnodup
    exact ih hnodup.2 (hembed.cell hnodup.1 none) hbudget
  | @present m c last d a ms row nesting value _ ih =>
    obtain ⟨budget, rfl⟩ := Nat.exists_eq_succ_of_ne_zero (Nat.ne_zero_of_lt hbudget)
    rw [List.map_cons, List.nodup_cons] at hnodup
    have hrest := ih hnodup.2 (hembed.cell hnodup.1 (some a)) (Nat.lt_of_succ_lt_succ hbudget)
    have hmember := hembed c.name List.mem_cons_self (member_pretty hdepth nesting level
      (Row.empty last) value (ends_prettyMembers level outer ms ('\x7d' :: rest)))
    rw [Document.prettyMembers]
    simp only [List.cons_append, List.append_assoc]
    refine members_cons (key?_next (skipBlank_cons (by decide) _) ?_) hmember hrest
    rw [skipBlank_newline, stringText_append]
    exact skipBlank_start (by decide) _

/-- All members, behind the opening brace. The first column has one. -/
theorem members_pretty {m : Nat} (hdepth : n < depth) (level : Nat) (rest : List Char) {c : Column}
    {columns : List Column} {d : Document} {a : c.type} {ms : List (String × Document)}
    {row : Row columns} (hm : m ≤ n) (hvalue : Reads m c.read d a) (h : Aligned n columns ms row)
    (hnodup : ((c :: columns).map Column.name).Nodup) {budget : Nat}
    (hbudget : ms.length + 1 < budget) :
    Gives (Reader.members (c :: columns) budget true (Row.empty (c :: columns))) depth
      (newline (level + 1) ++ (stringText c.name ++ ':' :: ' ' :: (d.pretty (level + 1)
        ++ (Document.prettyMembers (level + 1) ms ++ (newline level ++ '\x7d' :: rest)))))
      (some a, row) ('\x7d' :: rest) := by
  obtain ⟨budget, rfl⟩ := Nat.exists_eq_succ_of_ne_zero (Nat.ne_zero_of_lt hbudget)
  rw [List.map_cons, List.nodup_cons] at hnodup
  have hall : Embeds (c :: columns) (c :: columns) id := by
    intro key _ depth cs rest row row' hrow
    exact hrow
  have hmember := member_pretty hdepth hm (level + 1) (Row.empty columns) hvalue
    (ends_prettyMembers (level + 1) level ms ('\x7d' :: rest))
  refine members_cons (key?_first ?_) hmember (members_prettyMembers hdepth (level + 1) level rest h
    hnodup.2 (hall.cell hnodup.1 (some a)) (Nat.lt_of_succ_lt_succ hbudget))
  rw [skipBlank_newline, stringText_append]
  exact skipBlank_start (by decide) _

/-- A record is read from its members. -/
theorem record_of_members {α : Type} {name : String} {columns : List Column}
    {build : Row columns → Except Fault α} {row : Row columns} {a : α} {t : List Char}
    (hcs : skipBlank cs = '\x7b' :: t)
    (hmembers : Gives (Reader.members columns t.length true (Row.empty columns)) (depth + 1) t row
      ('\x7d' :: rest)) (hbuild : build row = .ok a) :
    Gives (Reader.record name columns build) (depth + 2) cs a rest := by
  have hall : Gives (fun depth cs => Reader.members columns cs.length true (Row.empty columns)
      depth cs) (depth + 1) t row ('\x7d' :: rest) := hmembers
  have hvalue : Gives (Reader.ofExcept (build row)) (depth + 1) ('\x7d' :: rest) a
      ('\x7d' :: rest) := by
    rw [hbuild]
    rfl
  have hend : Gives Reader.endObject (depth + 1) ('\x7d' :: rest) () rest := rfl
  unfold Reader.record
  exact (Gives.peek? _ hcs).bind (Gives.nested ((Gives.advance _ _ _).bind
    (hall.bind (hvalue.bind (hend.bind (.pure _ _ _))))))

/-- A record is read back if its members are and its row is built into
the value. All that is particular to a record is in its columns; what
holds of reading them is said here once for every record. -/
theorem Reads.record {α : Type} {m : Nat} {name : String} {c : Column} {columns : List Column}
    {build : Row (c :: columns) → Except Fault α} {d : Document} {a : c.type}
    {ms : List (String × Document)} {row : Row columns} {x : α} (hm : m ≤ n)
    (hvalue : Reads m c.read d a) (h : Aligned n columns ms row)
    (hnodup : ((c :: columns).map Column.name).Nodup) (hbuild : build (some a, row) = .ok x) :
    Reads (n + 1) (.record name (c :: columns) build) (.object ((c.name, d) :: ms)) x := by
  refine ⟨fun level => ⟨'\x7b', _, by rw [Document.pretty]; rfl, rfl⟩, ?_⟩
  intro depth level cs rest hdepth hrest hcs
  obtain ⟨depth, rfl⟩ : ∃ k, depth = k + 2 := ⟨depth - 2, by omega⟩
  have hlength := length_le_prettyMembers (level + 1) ms
  have ht : skipBlank cs = '\x7b' :: (newline (level + 1) ++ (stringText c.name ++ ':' :: ' '
      :: (d.pretty (level + 1) ++ (Document.prettyMembers (level + 1) ms
        ++ (newline level ++ '\x7d' :: rest))))) := by
    rw [hcs, Document.pretty]
    simp
  refine record_of_members ht (members_pretty (by omega) level rest hm hvalue h hnodup ?_) hbuild
  simp only [newline, List.length_append, List.length_cons]
  omega

end Records

/-- A document is read back as a whole text. -/
theorem Reads.run {α : Type} {n : Nat} {r : Reader α} {d : Document} {a : α}
    (h : Reads n r d a) (hn : n < Reader.maxDepth) :
    r.run (String.ofList (d.pretty 0)) = .ok a := by
  have hblank := h.skipBlank_pretty 0 []
  rw [List.append_nil] at hblank
  have hread : r Reader.maxDepth (d.pretty 0) = .ok (a, []) :=
    h.read hn ends_nil (hblank.trans (List.append_nil _).symm)
  rw [Reader.run, String.toList_ofList, hread]
  rfl

end CallFlow.Json
