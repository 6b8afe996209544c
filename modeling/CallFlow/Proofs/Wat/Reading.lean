/-
Reading the text format.

A text is cut into tokens by a machine that looks at one character at a time, and a stack
nests the tokens into s-expressions. Words end at a blank or a bracket; a string, or a
quoted identifier, must be followed by one. Comments are refused. Main statement: the
text of a document is read back as the s-expression that it lays out, if its words are
words.
-/
import CallFlow.Wat.Document
import Mathlib.Tactic.IntervalCases

namespace CallFlow.Wat

-- ============================================================ characters

/-- Whether a word may hold a character: ASCII that can be seen, except
for quotes, brackets, commas and semicolons. -/
def isWordChar (c : Char) : Bool :=
  0x21 ≤ c.toNat && c.toNat ≤ 0x7E
    && !List.contains ['"', '(', ')', ',', ';', '[', ']', '\x7b', '\x7d'] c

/-- Whether a character only separates tokens. -/
def isBlank (c : Char) : Bool :=
  [' ', '\n', '\t', '\r'].contains c

/-- Whether a character ends the token in front of it. -/
def isDelimiter (c : Char) : Bool :=
  isBlank c || c == '(' || c == ')'

/-- The value of a hexadecimal digit. -/
def hexValue? (c : Char) : Option Nat :=
  if '0' ≤ c ∧ c ≤ '9' then some (c.toNat - 48)
  else if 'a' ≤ c ∧ c ≤ 'f' then some (c.toNat - 87)
  else if 'A' ≤ c ∧ c ≤ 'F' then some (c.toNat - 55)
  else none

/-- The byte that a character stands for behind a backslash. -/
def escape? (c : Char) : Option UInt8 :=
  match c with
  | '"' => some 0x22
  | '\\' => some 0x5C
  | '\'' => some 0x27
  | 'n' => some 0x0A
  | 'r' => some 0x0D
  | 't' => some 0x09
  | _ => none

-- ================================================================ tokens

/-- A token. -/
inductive Token where
  | opening
  | closing
  | atom (s : Sexp)

/-- Where the machine stands. Inside a literal it has the bytes so far,
and it knows whether the literal is an identifier. -/
inductive Mode where
  | between
  | word (chars : List Char)
  | literal (isIdentifier : Bool) (bytes : List UInt8)
  /-- Behind a backslash. -/
  | escape (isIdentifier : Bool) (bytes : List UInt8)
  /-- Behind a backslash and a digit. -/
  | digit (isIdentifier : Bool) (bytes : List UInt8) (high : Nat)
  /-- Behind the closing quote. -/
  | closed

/-- The s-expression of a literal. -/
def literal (isIdentifier : Bool) (bytes : List UInt8) : Sexp :=
  if isIdentifier then .quoted bytes else .string bytes

namespace Mode

/-- A character from between tokens. -/
def start (c : Char) : Option (List Token × Mode) :=
  if isBlank c then some ([], between)
  else if c = '(' then some ([.opening], between)
  else if c = ')' then some ([.closing], between)
  else if c = '"' then some ([], literal false [])
  else if isWordChar c then some ([], word [c])
  else none

/-- The token that waits for a delimiter. -/
def pending : Mode → List Token
  | word chars => [.atom (.word (String.ofList chars))]
  | _ => []

/-- Whether a token may end here. -/
def isEnd : Mode → Bool
  | between => true
  | word _ => true
  | closed => true
  | _ => false

/-- The tokens that a character completes, and where the machine stands
then. -/
def step : Mode → Char → Option (List Token × Mode)
  | between, c => start c
  | word chars, c =>
    if isDelimiter c then (start c).map fun (ts, mode) => ((word chars).pending ++ ts, mode)
    else if c = '"' ∧ chars = ['$'] then some ([], literal true [])
    else if isWordChar c then some ([], word (chars ++ [c]))
    else none
  | literal q bytes, c =>
    if c = '"' then some ([.atom (Wat.literal q bytes)], closed)
    else if c = '\\' then some ([], escape q bytes)
    else if 0x20 ≤ c.toNat ∧ c.toNat ≠ 0x7F then
      some ([], literal q (bytes ++ String.utf8EncodeChar c))
    else none
  | escape q bytes, c =>
    match escape? c with
    | some b => some ([], literal q (bytes ++ [b]))
    | none => (hexValue? c).map fun high => ([], digit q bytes high)
  | digit q bytes high, c =>
    (hexValue? c).map fun low => ([], literal q (bytes ++ [UInt8.ofNat (16 * high + low)]))
  | closed, c => if isDelimiter c then start c else none

/-- The machine on several characters. -/
def run : Mode → List Char → Option (List Token × Mode)
  | mode, [] => some ([], mode)
  | mode, c :: cs => do
    let (ts, mode) ← step mode c
    let (us, mode) ← run mode cs
    return (ts ++ us, mode)

end Mode

/-- The tokens of a text. -/
def tokens? (cs : List Char) : Option (List Token) := do
  let (ts, mode) ← Mode.between.run cs
  if mode.isEnd then return ts ++ mode.pending else none

/-- Nests tokens. The items of the innermost open bracket come in order,
and those of the brackets around it are on the stack. -/
def nest (stack : List (List Sexp)) (items : List Sexp) : List Token → Option (List Sexp)
  | [] => if stack = [] then some items else none
  | .opening :: ts => nest (items :: stack) [] ts
  | .closing :: ts =>
    match stack with
    | outer :: stack => nest stack (outer ++ [.list items]) ts
    | [] => none
  | .atom s :: ts => nest stack (items ++ [s]) ts

/-- The s-expressions of a text. -/
def read? (text : String) : Option (List Sexp) := do
  nest [] [] (← tokens? text.toList)

-- ===================================================== tokens in sequence

namespace Mode

/-- A run of one more character is one step and the run from there. -/
theorem run_cons {mode last : Mode} {c : Char} {cs : List Char} {ts : List Token} :
    mode.run (c :: cs) = some (ts, last) ↔
      ∃ us next vs, mode.step c = some (us, next) ∧ next.run cs = some (vs, last)
        ∧ us ++ vs = ts := by
  simp only [run, Option.bind_eq_bind, Option.bind_eq_some_iff, Option.pure_def,
    Option.some.injEq, Prod.mk.injEq, Prod.exists]
  constructor
  · intro h
    obtain ⟨us, next, hstep, vs, last, hrun, rfl, rfl⟩ := h
    exact ⟨us, next, vs, hstep, hrun, rfl⟩
  · intro h
    obtain ⟨us, next, vs, hstep, hrun, rfl⟩ := h
    exact ⟨us, next, hstep, vs, last, hrun, rfl, rfl⟩

/-- Runs can be put together where one ends and the other starts. -/
theorem run_append {mode next last : Mode} {cs cs' : List Char} {ts us : List Token}
    (h : mode.run cs = some (ts, next)) (h' : next.run cs' = some (us, last)) :
    mode.run (cs ++ cs') = some (ts ++ us, last) := by
  induction cs generalizing mode ts with
  | nil =>
    cases h
    exact h'
  | cons c cs ih =>
    obtain ⟨vs, middle, ws, hstep, hrun, rfl⟩ := run_cons.mp h
    rw [List.append_assoc]
    exact run_cons.mpr ⟨vs, middle, ws ++ us, hstep, ih hrun, rfl⟩

/-- Where a token may end, a delimiter completes what waits for it. -/
theorem step_delimiter {mode : Mode} {d : Char} (h : mode.isEnd = true)
    (hd : isDelimiter d = true) :
    mode.step d = (start d).map fun (ts, next) => (mode.pending ++ ts, next) := by
  cases mode with
  | between => simp [step, pending]
  | word chars => rw [step, if_pos hd]
  | closed => simp [step, pending, hd]
  | literal => cases h
  | escape => cases h
  | digit => cases h

end Mode

/-- The tokens of a text are those of the run and the one that ends with
the text. -/
theorem tokens?_eq_some {cs : List Char} {ts : List Token} :
    tokens? cs = some ts ↔
      ∃ us mode, Mode.between.run cs = some (us, mode) ∧ mode.isEnd = true
        ∧ us ++ mode.pending = ts := by
  simp only [tokens?, Option.bind_eq_bind, Option.bind_eq_some_iff, Option.pure_def, Prod.exists]
  constructor
  · intro h
    obtain ⟨us, mode, hrun, h⟩ := h
    by_cases hend : mode.isEnd = true
    · rw [if_pos hend, Option.some.injEq] at h
      exact ⟨us, mode, hrun, hend, h⟩
    · rw [if_neg hend] at h
      cases h
  · intro h
    obtain ⟨us, mode, hrun, hend, h⟩ := h
    exact ⟨us, mode, hrun, by rw [if_pos hend, h]⟩

theorem tokens?_nil : tokens? [] = some [] :=
  rfl

/-- Texts with a delimiter between them have the tokens of both. -/
theorem tokens?_delimiter {cs cs' : List Char} {ts ts' : List Token} (d : Char) (us : List Token)
    (hd : isDelimiter d = true) (hstart : Mode.start d = some (us, .between))
    (h : tokens? cs = some ts) (h' : tokens? cs' = some ts') :
    tokens? (cs ++ d :: cs') = some (ts ++ (us ++ ts')) := by
  obtain ⟨vs, mode, hrun, hend, rfl⟩ := tokens?_eq_some.mp h
  obtain ⟨vs', mode', hrun', hend', rfl⟩ := tokens?_eq_some.mp h'
  have hstep : mode.step d = some (mode.pending ++ us, .between) := by
    rw [Mode.step_delimiter hend hd, hstart]
    rfl
  have hrest : mode.run (d :: cs') = some (mode.pending ++ us ++ vs', mode') :=
    Mode.run_cons.mpr ⟨_, _, _, hstep, hrun', rfl⟩
  refine tokens?_eq_some.mpr ⟨_, mode', Mode.run_append hrun hrest, hend', ?_⟩
  simp only [List.append_assoc]

theorem tokens?_space {cs cs' : List Char} {ts ts' : List Token}
    (h : tokens? cs = some ts) (h' : tokens? cs' = some ts') :
    tokens? (cs ++ ' ' :: cs') = some (ts ++ ts') :=
  tokens?_delimiter ' ' [] rfl rfl h h'

theorem tokens?_newline {cs cs' : List Char} {ts ts' : List Token}
    (h : tokens? cs = some ts) (h' : tokens? cs' = some ts') :
    tokens? (cs ++ '\n' :: cs') = some (ts ++ ts') :=
  tokens?_delimiter '\n' [] rfl rfl h h'

/-- A closing parenthesis separates tokens and is one. -/
theorem tokens?_closing {cs cs' : List Char} {ts ts' : List Token}
    (h : tokens? cs = some ts) (h' : tokens? cs' = some ts') :
    tokens? (cs ++ ')' :: cs') = some (ts ++ .closing :: ts') :=
  tokens?_delimiter ')' [.closing] rfl rfl h h'

theorem tokens?_opening {cs : List Char} {ts : List Token} (h : tokens? cs = some ts) :
    tokens? ('(' :: cs) = some (.opening :: ts) :=
  tokens?_delimiter '(' [.opening] rfl rfl tokens?_nil h

theorem tokens?_pad {cs : List Char} {ts : List Token} (n : Nat) (h : tokens? cs = some ts) :
    tokens? (List.replicate n ' ' ++ cs) = some ts := by
  induction n with
  | zero => exact h
  | succ n ih => exact tokens?_space tokens?_nil ih

-- ================================================================= atoms

/-- Whether a text is a word. -/
def isWord (s : String) : Bool :=
  !s.toList.isEmpty && s.toList.all isWordChar

theorem not_isDelimiter {c : Char} (h : isWordChar c = true) : isDelimiter c = false := by
  cases hd : isDelimiter c with
  | false => rfl
  | true =>
    have hc : c = ' ' ∨ c = '\n' ∨ c = '\t' ∨ c = '\r' ∨ c = '(' ∨ c = ')' := by
      simpa [isDelimiter, isBlank, or_assoc] using hd
    rcases hc with rfl | rfl | rfl | rfl | rfl | rfl <;> exact absurd h (by decide)

theorem start_wordChar {c : Char} (h : isWordChar c = true) :
    Mode.start c = some ([], .word [c]) := by
  have hd := not_isDelimiter h
  simp only [isDelimiter, Bool.or_eq_false_iff, beq_eq_false_iff_ne] at hd
  have hquote : c ≠ '"' := by
    rintro rfl
    exact absurd h (by decide)
  rw [Mode.start, if_neg (by rw [hd.1.1]; nofun), if_neg hd.1.2, if_neg hd.2, if_neg hquote,
    if_pos h]

theorem run_word {chars cs : List Char} (h : ∀ c ∈ cs, isWordChar c = true) :
    (Mode.word chars).run cs = some ([], .word (chars ++ cs)) := by
  induction cs generalizing chars with
  | nil => rw [List.append_nil]; rfl
  | cons c cs ih =>
    rw [List.forall_mem_cons] at h
    have hquote : c ≠ '"' := by
      rintro rfl
      exact absurd h.1 (by decide)
    have hstep : (Mode.word chars).step c = some ([], .word (chars ++ [c])) := by
      rw [Mode.step, if_neg (by rw [not_isDelimiter h.1]; nofun), if_neg (fun hc => hquote hc.1),
        if_pos h.1]
    have hrun : (Mode.word (chars ++ [c])).run cs = some ([], .word (chars ++ [c] ++ cs)) :=
      ih h.2
    rw [List.append_assoc] at hrun
    exact Mode.run_cons.mpr ⟨_, _, _, hstep, hrun, rfl⟩

/-- A word is read as one token. -/
theorem tokens?_word {s : String} (h : isWord s = true) :
    tokens? s.toList = some [.atom (.word s)] := by
  rw [isWord, Bool.and_eq_true, List.all_eq_true] at h
  cases hs : s.toList with
  | nil =>
    rw [hs] at h
    exact absurd h.1 (by decide)
  | cons c cs =>
    rw [hs, List.forall_mem_cons] at h
    have hrun : Mode.between.run (c :: cs) = some ([], .word (c :: cs)) :=
      Mode.run_cons.mpr ⟨_, _, _, start_wordChar h.2.1, run_word h.2.2, rfl⟩
    refine tokens?_eq_some.mpr ⟨_, _, hrun, rfl, ?_⟩
    rw [← hs, Mode.pending, String.ofList_toList]
    rfl

theorem hexValue?_digitChar {n : Nat} (h : n < 16) : hexValue? (Nat.digitChar n) = some n := by
  interval_cases n <;> rfl

theorem escape?_digitChar {n : Nat} (h : n < 16) : escape? (Nat.digitChar n) = none := by
  interval_cases n <;> rfl

/-- A byte is read back from how it stands between quotes. The same
three ways as for the lexer, each read to the one byte it stands for. -/
theorem run_stringByte (q : Bool) (bytes : List UInt8) (b : UInt8) :
    (Mode.literal q bytes).run (stringByte b) = some ([], .literal q (bytes ++ [b])) := by
  unfold stringByte
  by_cases hquote : b = 0x22 ∨ b = 0x5C
  · rw [if_pos hquote]
    rcases hquote with rfl | rfl <;> rfl
  rw [if_neg hquote]
  rw [not_or] at hquote
  have hb : b.toNat < 256 := b.toNat_lt
  by_cases hprint : 0x20 ≤ b ∧ b ≤ 0x7E
  · rw [if_pos hprint, UInt8.le_iff_toNat_le, UInt8.le_iff_toNat_le] at *
    have hlow : 32 ≤ b.toNat := hprint.1
    have hhigh : b.toNat ≤ 126 := hprint.2
    have hchar : (Char.ofNat b.toNat).toNat = b.toNat := by
      rw [Char.ofNat, dif_pos (Or.inl (by omega))]
      rfl
    have hbyte : String.utf8EncodeChar (Char.ofNat b.toNat) = [b] := by
      have hval : (Char.ofNat b.toNat).val.toNat = b.toNat := hchar
      rw [String.utf8EncodeChar, hval, if_pos (by omega), UInt8.ofNat_toNat]
    have hdouble : Char.ofNat b.toNat ≠ '"' := by
      intro heq
      have hnat : b.toNat = 0x22 := by rw [← hchar, heq]; rfl
      exact hquote.1 (UInt8.toNat_inj.mp hnat)
    have hslash : Char.ofNat b.toNat ≠ '\\' := by
      intro heq
      have hnat : b.toNat = 0x5C := by rw [← hchar, heq]; rfl
      exact hquote.2 (UInt8.toNat_inj.mp hnat)
    have hstep : (Mode.literal q bytes).step (Char.ofNat b.toNat)
        = some ([], .literal q (bytes ++ [b])) := by
      rw [Mode.step, if_neg hdouble, if_neg hslash, if_pos (by rw [hchar]; omega), hbyte]
    exact Mode.run_cons.mpr ⟨_, _, _, hstep, rfl, rfl⟩
  · rw [if_neg hprint]
    have hhigh : b.toNat / 16 < 16 := by omega
    have hlow : b.toNat % 16 < 16 := by omega
    have hbyte : UInt8.ofNat (16 * (b.toNat / 16) + b.toNat % 16) = b := by
      rw [Nat.div_add_mod, UInt8.ofNat_toNat]
    have h1 : (Mode.literal q bytes).step '\\' = some ([], .escape q bytes) := rfl
    have h2 : (Mode.escape q bytes).step (Nat.digitChar (b.toNat / 16))
        = some ([], .digit q bytes (b.toNat / 16)) := by
      rw [Mode.step, escape?_digitChar hhigh, hexValue?_digitChar hhigh]
      rfl
    have h3 : (Mode.digit q bytes (b.toNat / 16)).step (Nat.digitChar (b.toNat % 16))
        = some ([], .literal q (bytes ++ [b])) := by
      rw [Mode.step, hexValue?_digitChar hlow, Option.map_some, hbyte]
    rw [Mode.run_cons]
    exact ⟨_, _, _, h1, Mode.run_cons.mpr ⟨_, _, _, h2, Mode.run_cons.mpr ⟨_, _, _, h3, rfl, rfl⟩,
      rfl⟩, rfl⟩

/-- The characters of bytes are read back to them inside a string, byte
by byte. -/
theorem run_stringBytes (q : Bool) (read bytes : List UInt8) :
    (Mode.literal q read).run (bytes.flatMap stringByte)
      = some ([], .literal q (read ++ bytes)) := by
  induction bytes generalizing read with
  | nil => rw [List.append_nil]; rfl
  | cons b bytes ih =>
    have h := Mode.run_append (run_stringByte q read b) (ih (read ++ [b]))
    rw [List.append_assoc] at h
    exact h

/-- A literal is read up to its closing quote. -/
theorem run_literal (q : Bool) (bytes : List UInt8) :
    (Mode.literal q []).run (bytes.flatMap stringByte ++ ['"'])
      = some ([.atom (literal q bytes)], .closed) :=
  Mode.run_append (run_stringBytes q [] bytes) rfl

/-- A string is read as one token, of its bytes. -/
theorem tokens?_string (bytes : List UInt8) :
    tokens? (Sexp.string bytes).text.toList = some [.atom (.string bytes)] := by
  have hrun := run_literal false bytes
  rw [Sexp.text, stringText, String.toList_ofList]
  exact tokens?_eq_some.mpr
    ⟨_, _, Mode.run_cons.mpr ⟨[], .literal false [], _, rfl, hrun, rfl⟩, rfl, rfl⟩

/-- A quoted name is read as one token, of its bytes. -/
theorem tokens?_quoted (bytes : List UInt8) :
    tokens? (Sexp.quoted bytes).text.toList = some [.atom (.quoted bytes)] := by
  have hrun := run_literal true bytes
  rw [Sexp.text, stringText, String.toList_append, String.toList_ofList, String.toList_ofList]
  have hquote := Mode.run_cons.mpr ⟨[], .literal true [], _, (rfl : (Mode.word ['$']).step '"' = _),
    hrun, rfl⟩
  exact tokens?_eq_some.mpr
    ⟨_, _, Mode.run_cons.mpr ⟨[], .word ['$'], _, rfl, hquote, rfl⟩, rfl, rfl⟩

-- ========================================================= s-expressions

namespace Sexp

mutual

/-- The tokens of an s-expression. -/
def tokens : Sexp → List Token
  | list items => .opening :: tokensAll items ++ [.closing]
  | s => [.atom s]

/-- The tokens of s-expressions in order. -/
def tokensAll : List Sexp → List Token
  | [] => []
  | s :: ss => tokens s ++ tokensAll ss

end

mutual

/-- Whether the words in an s-expression are words. -/
def hasWords : Sexp → Bool
  | word t => isWord t
  | string _ => true
  | quoted _ => true
  | list items => haveWords items

/-- Whether the words in s-expressions are words. -/
def haveWords : List Sexp → Bool
  | [] => true
  | s :: ss => hasWords s && haveWords ss

end

/-- Expressions have words if each of them has. -/
theorem haveWords_iff {ss : List Sexp} : haveWords ss = true ↔ ∀ s ∈ ss, hasWords s = true := by
  induction ss with
  | nil => exact ⟨fun _ => List.forall_mem_nil _, fun _ => rfl⟩
  | cons s ss ih => rw [haveWords, Bool.and_eq_true, ih, List.forall_mem_cons]

/-- The tokens of expressions in order are those of each part. -/
theorem tokensAll_append (ss ss' : List Sexp) :
    tokensAll (ss ++ ss') = tokensAll ss ++ tokensAll ss' := by
  induction ss with
  | nil => rfl
  | cons s ss ih => rw [List.cons_append, tokensAll, tokensAll, ih, List.append_assoc]

mutual

/-- The text of an expression has the tokens of the expression, by
recursion over it. -/
theorem tokens?_text : ∀ s : Sexp, hasWords s = true → tokens? s.text.toList = some s.tokens
  | word t, h => tokens?_word h
  | string bytes, _ => tokens?_string bytes
  | quoted bytes, _ => tokens?_quoted bytes
  | list items, h => by
    have hitems := tokens?_texts items h
    rw [text, String.toList_append, String.toList_append]
    exact tokens?_opening (tokens?_closing hitems tokens?_nil)

/-- S-expressions with blanks between them have the tokens of all. -/
theorem tokens?_texts : ∀ ss : List Sexp, haveWords ss = true →
    tokens? (" ".intercalate (texts ss)).toList = some (tokensAll ss)
  | [], _ => rfl
  | [s], h => by
    rw [haveWords, Bool.and_eq_true] at h
    have hs := tokens?_text s h.1
    rw [texts, texts, String.intercalate_singleton, hs, tokensAll, tokensAll, List.append_nil]
  | s :: s' :: ss, h => by
    rw [haveWords, Bool.and_eq_true] at h
    have hs := tokens?_text s h.1
    have hrest := tokens?_texts (s' :: ss) h.2
    rw [texts] at hrest
    rw [texts, texts, String.intercalate_cons_cons, String.toList_append, String.toList_append,
      List.append_assoc]
    exact tokens?_space hs hrest

end

mutual

/-- The tokens of an s-expression nest to it. -/
theorem nest_tokens : ∀ (s : Sexp) (stack : List (List Sexp)) (items : List Sexp) (ts : List Token),
    nest stack items (s.tokens ++ ts) = nest stack (items ++ [s]) ts
  | word _, _, _, _ => rfl
  | string _, _, _, _ => rfl
  | quoted _, _, _, _ => rfl
  | list ss, stack, items, ts => by
    have h := nest_tokensAll ss (items :: stack) [] (.closing :: ts)
    rw [tokens, List.append_assoc]
    exact h

/-- Items are nested in order: the tokens of expressions put them behind
the items that are there. -/
theorem nest_tokensAll : ∀ (ss : List Sexp) (stack : List (List Sexp)) (items : List Sexp)
    (ts : List Token), nest stack items (tokensAll ss ++ ts) = nest stack (items ++ ss) ts
  | [], stack, items, ts => by rw [List.append_nil]; rfl
  | s :: ss, stack, items, ts => by
    rw [tokensAll, List.append_assoc, nest_tokens s, nest_tokensAll ss, List.append_assoc]
    rfl

end

/-- S-expressions with the same text are the same. -/
theorem eq_of_text_eq {s s' : Sexp} (h : s.hasWords = true) (h' : s'.hasWords = true)
    (htext : s.text = s'.text) : s = s' := by
  have htokens : s.tokens = s'.tokens := by
    have hs := tokens?_text s h
    rw [htext, tokens?_text s' h'] at hs
    exact (Option.some.inj hs).symm
  have hnest : ∀ s : Sexp, nest [] [] s.tokens = some [s] := by
    intro s
    have hs := nest_tokens s [] [] []
    rw [List.append_nil] at hs
    exact hs
  have hlists : some [s] = some [s'] := by rw [← hnest s, htokens, hnest s']
  exact List.head_eq_of_cons_eq (Option.some.inj hlists)

end Sexp

-- ============================================================= documents

namespace Document

mutual

/-- The text of a document ends with a new line, so that more can
follow. -/
theorem tokens?_text : ∀ (d : Document) (depth : Nat), d.sexp.hasWords = true →
    ∀ {cs ts}, tokens? cs = some ts →
      tokens? ((d.text depth).toList ++ cs) = some (d.sexp.tokens ++ ts)
  | line s, depth, h, cs, ts, hcs => by
    have hs := s.tokens?_text h
    have hline := tokens?_pad (2 * depth) (tokens?_newline hs hcs)
    rw [text, pad, String.toList_append, String.toList_append, String.toList_ofList,
      List.append_assoc, List.append_assoc]
    exact hline
  | group head body, depth, h, cs, ts, hcs => by
    have hwords : Sexp.haveWords (head ++ sexps body) = true := h
    rw [Sexp.haveWords_iff, List.forall_mem_append, ← Sexp.haveWords_iff,
      ← Sexp.haveWords_iff] at hwords
    have hhead := Sexp.tokens?_texts head hwords.1
    have hend := tokens?_pad (2 * depth) (tokens?_closing tokens?_nil
      (tokens?_newline tokens?_nil hcs))
    have hbody := tokens?_texts body (depth + 1) hwords.2 hend
    have hall := tokens?_pad (2 * depth) (tokens?_opening (tokens?_newline hhead hbody))
    rw [sexp, Sexp.tokens, Sexp.tokensAll_append]
    simp only [text, pad, String.toList_append, String.toList_ofList]
    simpa [List.append_assoc] using hall

/-- The same for documents in order. -/
theorem tokens?_texts : ∀ (ds : List Document) (depth : Nat), Sexp.haveWords (sexps ds) = true →
    ∀ {cs ts}, tokens? cs = some ts →
      tokens? ((texts depth ds).toList ++ cs) = some (Sexp.tokensAll (sexps ds) ++ ts)
  | [], _, _, _, _, hcs => hcs
  | d :: ds, depth, h, cs, ts, hcs => by
    rw [sexps, Sexp.haveWords, Bool.and_eq_true] at h
    have hrest := tokens?_texts ds depth h.2 hcs
    rw [texts, String.toList_append, List.append_assoc, sexps, Sexp.tokensAll, List.append_assoc]
    exact tokens?_text d depth h.1 hrest

end

/-- The text of a document is read back as what it lays out. -/
theorem read?_text {d : Document} (h : d.sexp.hasWords = true) :
    read? (d.text 0) = some [d.sexp] := by
  have htokens := tokens?_text d 0 h tokens?_nil
  rw [List.append_nil] at htokens
  rw [read?, htokens]
  show nest [] [] _ = _
  rw [Sexp.nest_tokens]
  rfl

end Document

end CallFlow.Wat
