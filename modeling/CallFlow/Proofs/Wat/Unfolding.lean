/-
Unfolding the code of a text.

In folded form an operator holds its operands; unfolding puts them in front of it. A
function is named by its identifier, the functions being numbered in the order of the
imports and then of the functions themselves. A slot is named by the word that it was
declared with or by its number, and a label is that of the innermost block around it with
the same word. Memory is accessed with the natural alignment.
-/
import CallFlow.Proofs.Text.Utf8
import CallFlow.Proofs.Wat.Words
import CallFlow.Wasm.Instruction

namespace CallFlow.Wat

open Wasm (Instruction)

-- ================================================================= names

/-- The value of an identifier. -/
def identifier? : Sexp → Option (List UInt8)
  | .word t =>
    match t.toList with
    | '$' :: c :: cs => some (Text.utf8 (String.ofList (c :: cs)))
    | _ => none
  | .quoted bytes => some bytes
  | _ => none

/-- A number in decimal digits. -/
def natural? (cs : List Char) : Option Nat :=
  if cs ≠ [] ∧ cs.all Char.isDigit then some (Nat.ofDigitChars 10 cs 0) else none

/-- A number that may have a minus sign. -/
def signed? : List Char → Option Int
  | '-' :: cs => (natural? cs).map fun n => -Int.ofNat n
  | cs => (natural? cs).map Int.ofNat

/-- An integer of so many bits, signed or unsigned. -/
def integer? (bits : Nat) (t : String) : Option Int :=
  (signed? t.toList).filter fun n => -2 ^ (bits - 1) ≤ n ∧ n < 2 ^ bits

/-- The slot of a word: one that starts with a dollar sign is declared,
any other is a number. -/
def slot? (locals : List String) (t : String) : Option Nat :=
  match t.toList with
  | '$' :: _ => locals.findIdx? fun declared => declared == t
  | cs => natural? cs

/-- What the code of a function is read against. -/
structure Scope where
  /-- The identifiers of the functions in the order of their numbers. -/
  functions : List (List UInt8)
  /-- The words that the slots are declared with. -/
  locals : List String
  /-- How the text of a double is read. -/
  double? : String → Option Binary64

-- ================================================================== code

/-- The start of a block or a loop. -/
def enclosing? : String → Option Instruction
  | "block" => some .block
  | "loop" => some .loop
  | _ => none

/-- The instruction of a keyword that stands alone. -/
def bare? : String → Option Instruction
  | "i32.load" => some (.i32Load 2)
  | "f64.load" => some (.f64Load 3)
  | "i32.store" => some (.i32Store 2)
  | "f64.store" => some (.f64Store 3)
  | "i32.eqz" => some .i32Eqz
  | "return" => some .ret
  | _ => none

namespace Scope

/-- The instruction of a keyword with an immediate. -/
def immediate? (S : Scope) (labels : List String) : String → Sexp → Option Instruction
  | "i32.const", .word t => (integer? 32 t).map fun n => .i32Const (Int32.ofInt n)
  | "i64.const", .word t => (integer? 64 t).map fun n => .i64Const (Int64.ofInt n)
  | "f64.const", .word t => (S.double? t).map .f64Const
  | "local.get", .word t => (slot? S.locals t).map .localGet
  | "local.set", .word t => (slot? S.locals t).map .localSet
  | "br_if", .word t => (labels.findIdx? fun label => label == t).map .branchIf
  | "call", s => do
    let name ← identifier? s
    (S.functions.findIdx? fun function => function == name).map .call
  | _, _ => none

mutual

/-- The instructions of an s-expression inside the given labels,
innermost first. -/
def unfold (S : Scope) (labels : List String) : Sexp → Option (List Instruction)
  | .list (.word keyword :: items) =>
    match enclosing? keyword, bare? keyword, items with
    | some start, _, .word label :: body => do
      return start :: (← unfoldAll S (label :: labels) body) ++ [.stop]
    | none, some i, operands => do
      return (← unfoldAll S labels operands) ++ [i]
    | none, none, immediate :: operands => do
      let code ← unfoldAll S labels operands
      return code ++ [← S.immediate? labels keyword immediate]
    | _, _, _ => none
  | _ => none

/-- The instructions of s-expressions in order. -/
def unfoldAll (S : Scope) (labels : List String) : List Sexp → Option (List Instruction)
  | [] => some []
  | s :: ss => do
    let code ← unfold S labels s
    return code ++ (← unfoldAll S labels ss)

end

end Scope

-- ============================================================= functions

/-- A function of a text: its identifier, the words that its slots are
declared with and its code. -/
structure TextFunction where
  identifier : List UInt8
  locals : List String
  body : List Sexp

/-- Whether an item of a function declares something. -/
def isDeclaration : Sexp → Bool
  | .list (.word keyword :: _) => ["param", "result", "local"].contains keyword
  | _ => false

/-- The word that a slot is declared with. -/
def declared? : Sexp → Option String
  | .list [.word "param", .word t, .word _] => some t
  | .list [.word "local", .word t, .word _] => some t
  | _ => none

/-- A field that is a function. -/
def function? : Sexp → Option TextFunction
  | .list (.word "func" :: id :: items) => do
    return { identifier := ← identifier? id
             locals := (items.takeWhile isDeclaration).filterMap declared?
             body := items.dropWhile isDeclaration }
  | _ => none

/-- The identifier of a field that imports a function. -/
def import? : Sexp → Option (List UInt8)
  | .list [.word "import", .string _, .string _, .list (.word "func" :: id :: _)] =>
    identifier? id
  | _ => none

/-- The fields of the module that a text is. -/
def module? (text : String) : Option (List Sexp) :=
  match read? text with
  | some [.list (.word "module" :: fields)] => some fields
  | _ => none

/-- The functions of a module in order. -/
def textFunctions (fields : List Sexp) : List TextFunction :=
  fields.filterMap function?

/-- The identifiers of the functions in the order of their numbers. -/
def identifiers (fields : List Sexp) : List (List UInt8) :=
  fields.filterMap import? ++ (textFunctions fields).map TextFunction.identifier

/-- The instructions of a function among the fields of a module. -/
def TextFunction.unfolded (double? : String → Option Binary64) (fields : List Sexp)
    (f : TextFunction) : Option (List Instruction) :=
  Scope.unfoldAll { functions := identifiers fields, locals := f.locals, double? } [] f.body

-- ======================================================= names as values

/-- Where a value is found does not change if all are mapped
injectively. -/
theorem findIdx?_map_injective {α β : Type} [BEq α] [LawfulBEq α] [BEq β] [LawfulBEq β] {g : α → β}
    (hg : Function.Injective g) (l : List α) (a : α) :
    ((l.map g).findIdx? fun b => b == g a) = l.findIdx? fun b => b == a := by
  rw [List.findIdx?_map]
  congr 1
  funext b
  rw [Bool.eq_iff_iff]
  simp [hg.eq_iff]

/-- A symbol is read back to the bytes of its name, whether it is
written as a word or quoted. -/
theorem identifier?_symbol (name : String) : identifier? (symbol name) = some (Text.utf8 name) := by
  unfold symbol
  split
  · next h =>
    rw [isPlain, Bool.and_eq_true] at h
    have hne : name.toList ≠ [] := by
      intro hnil
      have hempty : name = "" := String.toList_eq_nil_iff.mp hnil
      rw [hempty] at h
      exact absurd h.1 (by decide)
    obtain ⟨c, cs, hname⟩ := List.exists_cons_of_ne_nil hne
    have htext : ("$" ++ name).toList = '$' :: c :: cs := by
      rw [String.toList_append, hname]
      rfl
    rw [identifier?, htext]
    show some (Text.utf8 (String.ofList (c :: cs))) = _
    rw [← hname, String.ofList_toList]
  · rfl

/-- Different functions have different symbols. -/
theorem symbol_text_injective : Function.Injective fun name => (symbol name).text := by
  intro name name' h
  have hsymbol : symbol name = symbol name' :=
    Sexp.eq_of_text_eq (hasWords_symbol name) (hasWords_symbol name') h
  have hvalue : some (Text.utf8 name) = some (Text.utf8 name') := by
    rw [← identifier?_symbol, hsymbol, identifier?_symbol]
  exact Text.utf8_injective (Option.some.inj hvalue)

/-- The word of a slot. -/
def slotWord (f : Function) (i : Nat) : String :=
  (slot f i).text

theorem slot_eq_word (f : Function) (i : Nat) : slot f i = .word (slotWord f i) := by
  unfold slotWord slot
  split <;> rfl

/-- The word of a slot is its name behind a dollar sign, or its number. -/
theorem slotWord_cases (f : Function) (i : Nat) :
    (∃ name, f.slotName? i = some name ∧ slotWord f i = "$" ++ name)
      ∨ slotWord f i = Nat.repr i := by
  unfold slotWord slot
  cases hname : f.slotName? i with
  | none => exact .inr rfl
  | some name =>
    by_cases hplain : isPlain name = true
    · exact .inl ⟨name, rfl, by simp only [if_pos hplain]; rfl⟩
    · exact .inr (by simp only [if_neg hplain]; rfl)

theorem head?_dollar (name : String) : ("$" ++ name).toList.head? = some '$' := by
  rw [String.toList_append]
  rfl

/-- A number does not look like a name: it starts with no dollar sign. -/
theorem head?_repr_ne (n : Nat) : (Nat.repr n).toList.head? ≠ some '$' := by
  intro h
  rw [Nat.repr, String.toList_ofList] at h
  have hdigit := Nat.isDigit_of_mem_toDigits (by decide) (by decide) (List.mem_of_mem_head? h)
  exact absurd hdigit (by decide)

/-- Different names are different behind a dollar sign. -/
theorem dollar_injective : Function.Injective fun name : String => "$" ++ name := by
  intro n n' h
  have hlist := congrArg String.toList h
  simp only [String.toList_append] at hlist
  exact String.toList_inj.mp (List.append_cancel_left hlist)

theorem natural?_toDigits (n : Nat) : natural? (Nat.toDigits 10 n) = some n := by
  have hdigits : (Nat.toDigits 10 n).all Char.isDigit = true :=
    List.all_eq_true.mpr fun _ hc => Nat.isDigit_of_mem_toDigits (by decide) (by decide) hc
  rw [natural?, if_pos ⟨Nat.toDigits_ne_nil, hdigits⟩,
    Nat.ofDigitChars_toDigits (by decide) (by decide)]

/-- Different numbers have different digits. With the lemmas above, no
two slots are written alike. -/
theorem repr_injective : Function.Injective Nat.repr := by
  intro n n' h
  have hlist := congrArg String.toList h
  rw [Nat.repr, Nat.repr, String.toList_ofList, String.toList_ofList] at hlist
  have hnat := congrArg natural? hlist
  rw [natural?_toDigits, natural?_toDigits] at hnat
  exact Option.some.inj hnat

theorem signed?_toString (n : Int) : signed? (toString n).toList = some n := by
  cases n with
  | ofNat n =>
    rw [toList_toString_ofNat]
    unfold signed?
    split
    · next cs hcs =>
      have hmem : '-' ∈ Nat.toDigits 10 n := by
        rw [hcs]
        exact List.mem_cons_self
      have hdigit := Nat.isDigit_of_mem_toDigits (by decide) (by decide) hmem
      cases hdigit
    · rw [natural?_toDigits]
      rfl
  | negSucc n =>
    rw [toList_toString_negSucc, signed?, natural?_toDigits]
    rfl

/-- An integer is read back if it has no more bits than it may. -/
theorem integer?_toString {n : Int} {bits : Nat} (hlow : -2 ^ (bits - 1) ≤ n)
    (hhigh : n < 2 ^ bits) : integer? bits (toString n) = some n := by
  rw [integer?, signed?_toString, Option.filter_some, if_pos (decide_eq_true ⟨hlow, hhigh⟩)]

/-- Different slots have different words. -/
theorem slotWord_inj {f : Function} (hnames : f.slotNames.Nodup) {i j : Nat}
    (h : slotWord f i = slotWord f j) : i = j := by
  rcases slotWord_cases f i with ⟨n, hn, hi⟩ | hi
  · rcases slotWord_cases f j with ⟨n', hn', hj⟩ | hj
    · have hname : n = n' := dollar_injective (hi.symm.trans (h.trans hj))
      have hlt : i < f.slotNames.length := (List.getElem?_eq_some_iff.mp hn).1
      exact (List.getElem?_inj hlt hnames).mp (hn.trans (hname ▸ hn'.symm))
    · exact absurd (hj ▸ h ▸ hi ▸ head?_dollar n) (head?_repr_ne j)
  · rcases slotWord_cases f j with ⟨n', hn', hj⟩ | hj
    · exact absurd (hi ▸ h.symm ▸ hj ▸ head?_dollar n') (head?_repr_ne i)
    · exact repr_injective (hi.symm.trans (h.trans hj))

/-- The words that the slots of a function are declared with, in order. -/
def slotWords (f : Function) : List String :=
  (List.range f.slotCount).map (slotWord f)

/-- The word of a slot leads back to it. -/
theorem slot?_slotWord {f : Function} (hnames : f.slotNames.Nodup) {i : Nat}
    (hi : i < f.slotCount) : slot? (slotWords f) (slotWord f i) = some i := by
  have hfind : (slotWords f).findIdx? (fun declared => declared == slotWord f i) = some i := by
    rw [List.findIdx?_eq_some_iff_getElem]
    refine ⟨by simpa [slotWords] using hi, by simp [slotWords], ?_⟩
    intro j hj
    simp only [slotWords, List.getElem_map, List.getElem_range, beq_iff_eq]
    exact fun h => absurd (slotWord_inj hnames h) (Nat.ne_of_lt hj)
  unfold slot?
  split
  · exact hfind
  · next hdollar =>
    rcases slotWord_cases f i with ⟨n, -, hword⟩ | hword
    · exact absurd (by rw [hword, String.toList_append]; rfl) (hdollar n.toList)
    · rw [hword, Nat.repr, String.toList_ofList, natural?_toDigits]

end CallFlow.Wat
