/-
The words of an emitted text are words.

A plain name makes a word, and so does every number: whole numbers are digits behind a
sign, and the text of a double has digits, a point and an exponent, or is one of three
fixed words. A label is written as it is, so the labels of a body have to be plain.
-/
import CallFlow.Proofs.Basic
import CallFlow.Proofs.Wat.Reading
import CallFlow.Wat.Emit

namespace CallFlow.Wat

-- ================================================================= words

theorem forall_isWordChar {cs : List Char} (h : cs.all isWordChar = true) :
    ∀ c ∈ cs, isWordChar c = true :=
  List.all_eq_true.mp h

/-- Letters and digits may stand in words: they are printable, and none
of the nine characters that end a word. -/
theorem isWordChar_of_isAlphanum {c : Char} (h : c.isAlphanum = true) : isWordChar c = true := by
  have hnot : ['"', '(', ')', ',', ';', '[', ']', '\x7b', '\x7d'].all (!·.isAlphanum) = true := by
    decide
  have hrange : 0x21 ≤ c.toNat ∧ c.toNat ≤ 0x7E := by
    change ((decide (c.val ≥ 65 ∧ c.val ≤ 90)
      || (decide (c.val ≥ 97) && decide (c.val ≤ 122)))
      || (decide (c.val ≥ 48) && decide (c.val ≤ 57))) = true at h
    simp only [Bool.or_eq_true, Bool.and_eq_true, decide_eq_true_eq, ge_iff_le,
      UInt32.le_iff_toNat_le] at h
    change ((65 ≤ c.toNat ∧ c.toNat ≤ 90) ∨ (97 ≤ c.toNat ∧ c.toNat ≤ 122))
      ∨ (48 ≤ c.toNat ∧ c.toNat ≤ 57) at h
    omega
  have hmem : c ∉ ['"', '(', ')', ',', ';', '[', ']', '\x7b', '\x7d'] := by
    intro hc
    have hc := List.all_eq_true.mp hnot c hc
    rw [h] at hc
    cases hc
  simp only [isWordChar, hrange, decide_true, Bool.true_and, Bool.not_eq_true',
    List.contains_eq_mem, decide_eq_false_iff_not]
  exact hmem

theorem isWordChar_of_isDigit {c : Char} (h : c.isDigit = true) : isWordChar c = true :=
  isWordChar_of_isAlphanum (by rw [Char.isAlphanum, h, Bool.or_true])

theorem isWordChar_of_isIdChar {c : Char} (h : isIdChar c = true) : isWordChar c = true := by
  rcases Bool.or_eq_true_iff.mp h with h | h
  · exact isWordChar_of_isAlphanum h
  · have hall : ∀ d ∈ "!#$%&'*+-./:<=>?@\\^_`|~".toList, isWordChar d = true :=
      forall_isWordChar (by decide)
    exact hall c (List.contains_iff_mem.mp h)

/-- Characters of words make a word, if there is one at all. -/
theorem isWord_ofList {cs : List Char} (hne : cs ≠ []) (h : ∀ c ∈ cs, isWordChar c = true) :
    isWord (String.ofList cs) = true := by
  rw [isWord, String.toList_ofList, Bool.and_eq_true, List.all_eq_true]
  refine ⟨?_, h⟩
  cases cs with
  | nil => exact absurd rfl hne
  | cons c cs => rfl

/-- A plain name behind a dollar sign is a word. -/
theorem isWord_dollar {name : String} (h : isPlain name = true) : isWord ("$" ++ name) = true := by
  rw [isPlain, Bool.and_eq_true, List.all_eq_true] at h
  rw [isWord, String.toList_append, Bool.and_eq_true, List.all_eq_true]
  refine ⟨rfl, ?_⟩
  rw [List.forall_mem_append]
  exact ⟨forall_isWordChar (by decide), fun c hc => isWordChar_of_isIdChar (h.2 c hc)⟩

theorem isWordChar_toDigits (n : Nat) : ∀ c ∈ Nat.toDigits 10 n, isWordChar c = true :=
  fun _ hc => isWordChar_of_isDigit (Nat.isDigit_of_mem_toDigits (by decide) (by decide) hc)

/-- A natural number is a word. -/
theorem isWord_nat (n : Nat) : isWord (toString n) = true :=
  isWord_ofList (Nat.toDigits_ne_nil) (isWordChar_toDigits n)

/-- An integer is a word, also with its minus. -/
theorem isWord_int (n : Int) : isWord (toString n) = true := by
  cases n with
  | ofNat n => exact isWord_nat n
  | negSucc n =>
    rw [isWord, toList_toString_negSucc, Bool.and_eq_true, List.all_eq_true, List.forall_mem_cons]
    exact ⟨rfl, by decide, isWordChar_toDigits (n + 1)⟩

-- =============================================================== doubles

theorem isWordChar_zeros (n : Nat) : ∀ c ∈ List.replicate n '0', isWordChar c = true := by
  intro c hc
  rw [List.eq_of_mem_replicate hc]
  decide

/-- A double written out in positions has only word characters: digits,
zeros and a point. -/
theorem isWord_positional (d : Shortest.Decimal) :
    Layout.positional d ≠ [] ∧ ∀ c ∈ Layout.positional d, isWordChar c = true := by
  have hdigits : ∀ c ∈ d.digitChars, isWordChar c = true := isWordChar_toDigits d.digits
  unfold Layout.positional
  split
  · rw [List.forall_mem_append, List.forall_mem_append]
    exact ⟨List.append_ne_nil_of_right_ne_nil _ (List.cons_ne_nil _ _),
      ⟨hdigits, isWordChar_zeros _⟩, forall_isWordChar (by decide)⟩
  · split
    · rw [List.forall_mem_append, List.forall_mem_cons]
      exact ⟨List.append_ne_nil_of_right_ne_nil _ (List.cons_ne_nil _ _),
        fun c hc => hdigits c (List.mem_of_mem_take hc), by decide,
        fun c hc => hdigits c (List.mem_of_mem_drop hc)⟩
    · rw [List.cons_append, List.forall_mem_cons, List.cons_append, List.forall_mem_cons,
        List.forall_mem_append]
      exact ⟨List.cons_ne_nil _ _, by decide, by decide, isWordChar_zeros _, hdigits⟩

/-- A double written with an exponent has only word characters as well.
Besides digits these are a point, the letter of the exponent and its
sign. -/
theorem isWord_scientific (plus : Bool) (d : Shortest.Decimal) :
    Layout.scientific plus d ≠ [] ∧ ∀ c ∈ Layout.scientific plus d, isWordChar c = true := by
  have hdigits : ∀ c ∈ d.digitChars, isWordChar c = true := isWordChar_toDigits d.digits
  have hsign : ∀ c ∈ if d.leading < 0 then ['-'] else if plus then ['+'] else [],
      isWordChar c = true := by
    apply forall_isWordChar
    split
    · decide
    · split <;> decide
  have hexponent := isWordChar_toDigits d.leading.natAbs
  unfold Layout.scientific
  rw [List.append_assoc, List.forall_mem_append, List.cons_append, List.forall_mem_cons,
    List.forall_mem_append]
  refine ⟨List.append_ne_nil_of_right_ne_nil _ (List.cons_ne_nil _ _), ?_, by decide, hsign,
    hexponent⟩
  split
  · next c c' cs hcs =>
    rw [hcs, List.forall_mem_cons, List.forall_mem_cons] at hdigits
    rw [List.forall_mem_cons, List.forall_mem_cons, List.forall_mem_cons]
    exact ⟨hdigits.1, by decide, hdigits.2⟩
  · exact hdigits

/-- A double is a word in every form that it is written in, also as an
infinity or no number. -/
theorem isWord_double (v : Binary64) : isWord (Layout.wat.text v) = true := by
  have hsigned : ∀ cs : List Char, cs ≠ [] ∧ (∀ c ∈ cs, isWordChar c = true) →
      isWord (String.ofList ((if v.isNegative then ['-'] else []) ++ cs)) = true := by
    intro cs hcs
    apply isWord_ofList (List.append_ne_nil_of_right_ne_nil _ hcs.1)
    rw [List.forall_mem_append]
    refine ⟨forall_isWordChar ?_, hcs.2⟩
    split <;> decide
  unfold Layout.text
  split
  · decide
  split
  · split <;> decide
  · apply hsigned
    by_cases hzero : v.isZero = true
    · rw [if_pos hzero]
      exact ⟨by decide, forall_isWordChar (by decide)⟩
    · rw [if_neg hzero]
      dsimp only
      split
      · exact isWord_positional _
      · exact isWord_scientific _ _

-- ================================================================== code

mutual

/-- Whether the labels in an expression are plain. -/
def hasPlainLabels : Expr → Bool
  | .set _ v => hasPlainLabels v
  | .call _ args _ => havePlainLabels args
  | .load _ a => hasPlainLabels a
  | .store _ a v => hasPlainLabels a && hasPlainLabels v
  | .returnValue v => hasPlainLabels v
  | .block l body => isPlain l && havePlainLabels body
  | .loop l body => isPlain l && havePlainLabels body
  | .branchIf l c _ => isPlain l && hasPlainLabels c
  | _ => true

/-- Whether the labels in expressions are plain. -/
def havePlainLabels : List Expr → Bool
  | [] => true
  | e :: es => hasPlainLabels e && havePlainLabels es

end

theorem haveWords_cons {s : Sexp} {ss : List Sexp} (h : s.hasWords = true)
    (h' : Sexp.haveWords ss = true) : Sexp.haveWords (s :: ss) = true :=
  Bool.and_eq_true_iff.mpr ⟨h, h'⟩

theorem haveWords_append {ss ss' : List Sexp} (h : Sexp.haveWords ss = true)
    (h' : Sexp.haveWords ss' = true) : Sexp.haveWords (ss ++ ss') = true := by
  rw [Sexp.haveWords_iff] at h h' ⊢
  exact List.forall_mem_append.mpr ⟨h, h'⟩

theorem haveWords_map {α : Type} {g : α → Sexp} {as : List α}
    (h : ∀ a ∈ as, (g a).hasWords = true) : Sexp.haveWords (as.map g) = true := by
  rw [Sexp.haveWords_iff]
  exact List.forall_mem_map.mpr h

/-- A symbol is a word or quoted, and has words either way. -/
theorem hasWords_symbol (name : String) : (symbol name).hasWords = true := by
  unfold symbol
  split
  · next h => exact isWord_dollar h
  · rfl

/-- A slot is a word, by name or by number. -/
theorem hasWords_slot (f : Function) (i : Nat) : (slot f i).hasWords = true := by
  unfold slot
  split
  · show isWord _ = true
    split
    · next h => exact isWord_dollar h
    · exact isWord_nat i
  · exact isWord_nat i

/-- A list that starts with a keyword. -/
theorem hasWords_command {keyword : String} {items : List Sexp} (hk : isWord keyword = true)
    (h : Sexp.haveWords items = true) : (Sexp.list (.word keyword :: items)).hasWords = true :=
  haveWords_cons hk h

/-- A constant is a keyword and a number, and both are words. -/
theorem hasWords_constant (c : Constant) : (constant c).hasWords = true := by
  cases c with
  | i32 v => exact hasWords_command (by decide) (haveWords_cons (isWord_int _) rfl)
  | i64 v => exact hasWords_command (by decide) (haveWords_cons (isWord_int _) rfl)
  | f64 v => exact hasWords_command (by decide) (haveWords_cons (isWord_double v) rfl)

/-- The keywords of loads and stores are words for every type. -/
theorem isWord_typed (t : ValueType) {suffix : String} (h : suffix = ".load" ∨ suffix = ".store") :
    isWord (t.name ++ suffix) = true := by
  rcases h with rfl | rfl <;> cases t <;> decide

mutual

/-- A folded expression has words, if the labels in it are plain. The
recursion is that of folding. Keywords are words by inspection, and
symbols are plain or quoted. -/
theorem hasWords_folded (f : Function) :
    ∀ e, hasPlainLabels e = true → (folded f e).hasWords = true
  | .const c, _ => hasWords_constant c
  | .get i _, _ => hasWords_command (by decide) (haveWords_cons (hasWords_slot f i) rfl)
  | .set i v, h =>
    hasWords_command (by decide)
      (haveWords_cons (hasWords_slot f i) (haveWords_cons (hasWords_folded f v h) rfl))
  | .call g args _, h =>
    hasWords_command (by decide) (haveWords_cons (hasWords_symbol g) (haveWords_foldedAll f args h))
  | .load t a, h =>
    hasWords_command (isWord_typed t (.inl rfl)) (haveWords_cons (hasWords_folded f a h) rfl)
  | .store t a v, h => by
    obtain ⟨ha, hv⟩ := Bool.and_eq_true_iff.mp h
    exact hasWords_command (isWord_typed t (.inr rfl))
      (haveWords_cons (hasWords_folded f a ha) (haveWords_cons (hasWords_folded f v hv) rfl))
  | .returnValue v, h =>
    hasWords_command (by decide) (haveWords_cons (hasWords_folded f v h) rfl)
  | .returnNone, _ => hasWords_command (by decide) rfl
  | .block l body, h => by
    obtain ⟨hl, hbody⟩ := Bool.and_eq_true_iff.mp h
    exact hasWords_command (by decide)
      (haveWords_cons (isWord_dollar hl) (haveWords_foldedAll f body hbody))
  | .loop l body, h => by
    obtain ⟨hl, hbody⟩ := Bool.and_eq_true_iff.mp h
    exact hasWords_command (by decide)
      (haveWords_cons (isWord_dollar hl) (haveWords_foldedAll f body hbody))
  | .branchIf l c .zero, h => by
    obtain ⟨hl, hc⟩ := Bool.and_eq_true_iff.mp h
    have htest : (Sexp.list [.word "i32.eqz", folded f c]).hasWords = true :=
      hasWords_command (by decide) (haveWords_cons (hasWords_folded f c hc) rfl)
    exact hasWords_command (by decide)
      (haveWords_cons (isWord_dollar hl) (haveWords_cons htest rfl))
  | .branchIf l c .nonzero, h => by
    obtain ⟨hl, hc⟩ := Bool.and_eq_true_iff.mp h
    exact hasWords_command (by decide)
      (haveWords_cons (isWord_dollar hl) (haveWords_cons (hasWords_folded f c hc) rfl))

/-- The same for statements in order. -/
theorem haveWords_foldedAll (f : Function) :
    ∀ es, havePlainLabels es = true → Sexp.haveWords (foldedAll f es) = true
  | [], _ => rfl
  | e :: es, h => by
    obtain ⟨he, hes⟩ := Bool.and_eq_true_iff.mp h
    exact haveWords_cons (hasWords_folded f e he) (haveWords_foldedAll f es hes)

end

/-- Statements are folded one by one. -/
theorem foldedAll_eq_map (f : Function) (es : List Expr) : foldedAll f es = es.map (folded f) := by
  induction es with
  | nil => rfl
  | cons e es ih => rw [foldedAll, ih, List.map_cons]

mutual

/-- The layout of a statement does not change it. -/
theorem sexp_statement (f : Function) : ∀ e, (statement f e).sexp = folded f e
  | .block l body => by
    rw [statement, Document.sexp, sexps_statements f body]
    rfl
  | .loop l body => by
    rw [statement, Document.sexp, sexps_statements f body]
    rfl
  | .const _ => rfl
  | .get _ _ => rfl
  | .set _ _ => rfl
  | .call _ _ _ => rfl
  | .load _ _ => rfl
  | .store _ _ _ => rfl
  | .returnValue _ => rfl
  | .returnNone => rfl
  | .branchIf _ _ _ => rfl

/-- Laid out over lines, statements are the same expressions. -/
theorem sexps_statements (f : Function) :
    ∀ es, Document.sexps (statements f es) = foldedAll f es
  | [] => rfl
  | e :: es => by
    rw [statements, Document.sexps, sexp_statement f e, sexps_statements f es]
    rfl

end

-- =============================================================== modules

theorem isWord_typeName (t : ValueType) : isWord t.name = true := by
  cases t <;> decide

theorem haveWords_result (t : ValueType) : Sexp.haveWords (result t) = true := by
  cases t <;> decide

theorem sexps_eq_map (ds : List Document) : Document.sexps ds = ds.map Document.sexp := by
  induction ds with
  | nil => rfl
  | cons d ds ih => rw [Document.sexps, ih, List.map_cons]

/-- A function as an s-expression. -/
theorem sexp_function (f : Function) :
    (function f).sexp = .list (.word "func" :: symbol f.name
      :: (f.params.zipIdx.map (fun (t, i) => Sexp.list [.word "param", slot f i, .word t.name])
        ++ (result f.result
          ++ (f.locals.zipIdx.map (fun (t, i) =>
              Sexp.list [.word "local", slot f (f.params.length + i), .word t.name])
            ++ foldedAll f f.body)))) := by
  unfold function
  simp only [Document.sexp, sexps_eq_map, List.map_append, List.map_map, ← sexps_statements]
  simp [List.append_assoc, Function.comp_def, Document.sexp]

/-- The text of a function has words, if its labels are plain. Other
names in it are quoted where they must be. -/
theorem hasWords_function {f : Function} (h : havePlainLabels f.body = true) :
    (function f).sexp.hasWords = true := by
  rw [sexp_function]
  refine hasWords_command (by decide) (haveWords_cons (hasWords_symbol f.name)
    (haveWords_append ?_ (haveWords_append (haveWords_result f.result)
      (haveWords_append ?_ (haveWords_foldedAll f f.body h)))))
  · apply haveWords_map
    intro p _
    exact hasWords_command (by decide)
      (haveWords_cons (hasWords_slot f p.2) (haveWords_cons (isWord_typeName p.1) rfl))
  · apply haveWords_map
    intro p _
    exact hasWords_command (by decide)
      (haveWords_cons (hasWords_slot f _) (haveWords_cons (isWord_typeName p.1) rfl))

/-- An import has words, whatever its names are. -/
theorem hasWords_import (i : Import) : (importLine i).sexp.hasWords = true := by
  have hparams : Sexp.haveWords (if i.params.isEmpty then []
      else [.list (.word "param" :: i.params.map fun t => .word t.name)]) = true := by
    split
    · rfl
    · exact haveWords_cons (hasWords_command (by decide)
        (haveWords_map fun t _ => isWord_typeName t)) rfl
  have hfunc : (Sexp.list (.word "func" :: symbol i.name :: (if i.params.isEmpty then []
      else [.list (.word "param" :: i.params.map fun t => .word t.name)])
      ++ result i.result)).hasWords = true :=
    hasWords_command (by decide) (haveWords_cons (hasWords_symbol i.name)
      (haveWords_append hparams (haveWords_result i.result)))
  exact hasWords_command (by decide) (haveWords_cons rfl (haveWords_cons rfl
    (haveWords_cons hfunc rfl)))

/-- The fields of a module as s-expressions. -/
def fields (m : Module) : List Sexp :=
  m.imports.map (fun i => (importLine i).sexp)
    ++ ((memoryLine m.memory).sexp :: m.memory.segments.map (fun s => (segmentLine s).sexp))
    ++ m.functions.map (fun f => (function f).sexp) ++ m.exports.map (fun e => (exportLine e).sexp)

/-- The text of a module is one list, of its fields. -/
theorem sexp_document (m : Module) :
    (document m).sexp = .list (.word "module" :: fields m) := by
  unfold document fields
  simp only [Document.sexp, sexps_eq_map]
  simp [Function.comp_def]

/-- A module whose labels are plain has words, so that its text is read
back token by token. -/
theorem hasWords_document {m : Module} (h : ∀ f ∈ m.functions, havePlainLabels f.body = true) :
    (document m).sexp.hasWords = true := by
  rw [sexp_document]
  refine hasWords_command (by decide) (haveWords_append (haveWords_append (haveWords_append ?_
    (haveWords_cons ?_ ?_)) ?_) ?_)
  · exact haveWords_map fun i _ => hasWords_import i
  · exact hasWords_command (by decide) (haveWords_cons (hasWords_command (by decide) rfl)
      (haveWords_cons (isWord_nat _) (haveWords_cons (isWord_nat _) rfl)))
  · exact haveWords_map fun s _ => hasWords_command (by decide) (haveWords_cons
      (hasWords_command (by decide) (haveWords_cons (isWord_nat _) rfl)) rfl)
  · exact haveWords_map fun f hf => hasWords_function (h f hf)
  · exact haveWords_map fun e _ => hasWords_command (by decide) (haveWords_cons rfl
      (haveWords_cons (hasWords_command (by decide) (haveWords_cons (hasWords_symbol e.function)
        rfl)) rfl))

/-- An emitted text is read back as the fields of its module. -/
theorem read?_document {m : Module} (h : ∀ f ∈ m.functions, havePlainLabels f.body = true) :
    read? ((document m).text 0) = some [.list (.word "module" :: fields m)] := by
  rw [Document.read?_text (hasWords_document h), sexp_document]

end CallFlow.Wat
