/-
What stands in quotes in an emitted text.

The atoms in quotes of a module are found by recursion on its s-expressions: most of them have
none, since keywords, numbers, slots and labels are words. What is left are the texts and bytes
of the program and of its memory, in the order in which they are written. So no name and no data
can open or close a bracket, start a comment or end a quoted token but their own.
-/
import CallFlow.Proofs.Lowering.Formats
import CallFlow.Proofs.Wat.Lexing

namespace CallFlow

namespace Wat

-- ================================================== atoms in quotes

namespace Sexp

mutual

/-- The atoms in quotes of an s-expression, in order. -/
def quotations : Sexp → List Sexp
  | word _ => []
  | list items => quotationsAll items
  | s => [s]

/-- The atoms in quotes of s-expressions, in order. -/
def quotationsAll : List Sexp → List Sexp
  | [] => []
  | s :: ss => quotations s ++ quotationsAll ss

end

@[simp]
theorem quotations_word (t : String) : (word t).quotations = [] := by
  rw [quotations]

@[simp]
theorem quotations_string (bytes : List UInt8) :
    (string bytes).quotations = [.string bytes] := by
  simp [quotations]

@[simp]
theorem quotations_quoted (bytes : List UInt8) :
    (quoted bytes).quotations = [.quoted bytes] := by
  simp [quotations]

@[simp]
theorem quotations_list (items : List Sexp) : (list items).quotations = quotationsAll items := by
  rw [quotations]

/-- The quotations of expressions in order are those of each of them. -/
theorem quotationsAll_eq (ss : List Sexp) : quotationsAll ss = ss.flatMap quotations := by
  induction ss with
  | nil => rfl
  | cons s ss ih => rw [quotationsAll, ih, List.flatMap_cons]

end Sexp

/-- The atom in quotes that a token is. -/
def Token.quotation? : Token → Option Sexp
  | .atom s => if s.isQuotation then some s else none
  | _ => none

/-- A token that is a bracket or a proper atom. -/
def Token.IsAtomic (t : Token) : Prop :=
  ∀ s, t = .atom s → s.hasWords = true ∧ ∀ items, s ≠ .list items

namespace Sexp

mutual

/-- The tokens of an expression are atomic: what was written as one
token is read as one. The recursion is that of the expression. -/
theorem isAtomic_tokens : ∀ s : Sexp, s.hasWords = true → ∀ t ∈ s.tokens, t.IsAtomic
  | word w, h, t, ht => by
    intro s hs
    obtain rfl : t = .atom (word w) := List.mem_singleton.mp ht
    cases hs
    exact ⟨h, fun items h => by cases h⟩
  | string bytes, h, t, ht => by
    intro s hs
    obtain rfl : t = .atom (string bytes) := List.mem_singleton.mp ht
    cases hs
    exact ⟨h, fun items h => by cases h⟩
  | quoted bytes, h, t, ht => by
    intro s hs
    obtain rfl : t = .atom (quoted bytes) := List.mem_singleton.mp ht
    cases hs
    exact ⟨h, fun items h => by cases h⟩
  | list items, h, t, ht => by
    rw [tokens, List.cons_append, List.mem_cons, List.mem_append, List.mem_singleton] at ht
    rcases ht with rfl | ht | rfl
    · intro s hs
      cases hs
    · exact isAtomic_tokensAll items h t ht
    · intro s hs
      cases hs

theorem isAtomic_tokensAll : ∀ ss : List Sexp, haveWords ss = true →
    ∀ t ∈ tokensAll ss, t.IsAtomic
  | [], _, t, ht => absurd ht List.not_mem_nil
  | s :: ss, h, t, ht => by
    rw [haveWords, Bool.and_eq_true] at h
    rw [tokensAll, List.mem_append] at ht
    rcases ht with ht | ht
    · exact isAtomic_tokens s h.1 t ht
    · exact isAtomic_tokensAll ss h.2 t ht

end

mutual

/-- Of the tokens of an expression, those with a quotation are the
quotations of the expression, in order. Parentheses and words have none. -/
theorem filterMap_tokens : ∀ s : Sexp, s.tokens.filterMap Token.quotation? = s.quotations
  | word _ => by rw [quotations_word]; rfl
  | string _ => by rw [quotations_string]; rfl
  | quoted _ => by rw [quotations_quoted]; rfl
  | list items => by
    have hopening : Token.quotation? .opening = none := rfl
    have hclosing : [Token.closing].filterMap Token.quotation? = [] := rfl
    rw [tokens, quotations_list, List.cons_append, List.filterMap_cons_none hopening,
      List.filterMap_append, filterMap_tokensAll items, hclosing, List.append_nil]

theorem filterMap_tokensAll :
    ∀ ss : List Sexp, (tokensAll ss).filterMap Token.quotation? = quotationsAll ss
  | [] => rfl
  | s :: ss => by
    rw [tokensAll, List.filterMap_append, filterMap_tokens s, filterMap_tokensAll ss, quotationsAll]

end

end Sexp

-- ============================================== reading a sealed text

/-- An atomic token is found again in the piece of text that is written
for it. -/
theorem Token.IsAtomic.token?_piece {t : Token} (h : t.IsAtomic) : t.piece.token? = some t := by
  cases t with
  | opening => rfl
  | closing => rfl
  | atom s =>
    obtain ⟨hwords, hlist⟩ := h s rfl
    rw [Token.piece, Piece.token?, atom?_text hwords hlist, Option.map_some]

/-- An atomic token is a quotation in the text exactly if it is one
among the tokens, with the same characters. -/
theorem Token.IsAtomic.quotation?_piece {t : Token} (h : t.IsAtomic) :
    t.piece.quotation? = t.quotation?.map fun s => s.text.toList := by
  cases t with
  | opening => rfl
  | closing => rfl
  | atom s =>
    obtain ⟨hwords, hlist⟩ := h s rfl
    rw [Token.piece, Piece.quotation?, Token.quotation?]
    by_cases hquote : s.isQuotation = true
    · rw [if_pos hquote, if_pos ((quote_mem_text hwords hlist).mpr hquote), Option.map_some]
    · rw [if_neg hquote, if_neg fun h => hquote ((quote_mem_text hwords hlist).mp h),
        Option.map_none]

/-- What a function undoes on each member of a list is undone on the
list. -/
theorem mapM_map_eq_some {α β : Type} {f : α → β} {g : β → Option α} {as : List α}
    (h : ∀ a ∈ as, g (f a) = some a) : (as.map f).mapM g = some as := by
  induction as with
  | nil => rfl
  | cons a as ih =>
    rw [List.forall_mem_cons] at h
    rw [List.map_cons, List.mapM_cons, h.1, ih h.2]
    rfl

/-- The quotations in a text of atomic tokens are those of the tokens.
With the two lemmas above, they are those of the expression written. -/
theorem filterMap_quotation? {ts : List Token} (h : ∀ t ∈ ts, t.IsAtomic) :
    (ts.map Token.piece).filterMap Piece.quotation?
      = (ts.filterMap Token.quotation?).map fun s => s.text.toList := by
  rw [List.filterMap_map, List.map_filterMap]
  exact List.filterMap_congr fun t ht => (h t ht).quotation?_piece

/-- An atom in quotes is read back from the characters between and
around its quotes. -/
theorem mapM_atom? {ts : List Token} (h : ∀ t ∈ ts, t.IsAtomic) :
    ((ts.filterMap Token.quotation?).map fun s => s.text.toList).mapM atom?
      = some (ts.filterMap Token.quotation?) := by
  apply mapM_map_eq_some
  intro s hs
  obtain ⟨t, ht, heq⟩ := List.mem_filterMap.mp hs
  cases t with
  | opening => cases heq
  | closing => cases heq
  | atom s' =>
    obtain ⟨-, hs'⟩ := Option.ite_none_right_eq_some.mp heq
    cases hs'
    exact atom?_text (h _ ht s rfl).1 (h _ ht s rfl).2

/-- The quoted pieces are among those that are no blanks. -/
theorem filterMap_filter_isBlank (ps : List Piece) :
    (ps.filter (!·.isBlank)).filterMap Piece.quotation? = ps.filterMap Piece.quotation? := by
  rw [List.filterMap_filter]
  refine List.filterMap_congr fun p _ => ?_
  cases p <;> rfl

/-- A text that is sealed is read as its tokens, and its quoted pieces
as the atoms in quotes among them. -/
theorem Sealed.reads {cs : List Char} {ts : List Token} (h : Sealed cs ts)
    (hts : ∀ t ∈ ts, t.IsAtomic) :
    ∃ ps, pieces? cs = some ps ∧ ps.flatMap Piece.chars = cs
      ∧ (∀ p ∈ ps, p.isComment = false) ∧ (ps.filter (!·.isBlank)).mapM Piece.token? = some ts
      ∧ ps.filterMap Piece.quotation?
          = (ts.filterMap Token.quotation?).map (fun s => s.text.toList) := by
  obtain ⟨ps, hps, hfilter⟩ := h.cut
  refine ⟨ps, hps, flatMap_chars hps, isComment_of_filter hfilter, ?_, ?_⟩
  · rw [hfilter]
    exact mapM_map_eq_some fun t ht => (hts t ht).token?_piece
  · rw [← filterMap_filter_isBlank, hfilter, filterMap_quotation? hts]

-- =============================================== the atoms of a module

/-- The identifier of a function, if it needs quotes. -/
def quotedSymbol (name : String) : List Sexp :=
  if isPlain name then [] else [.quoted (Text.utf8 name)]

/-- A symbol is quoted if it cannot be written as a plain word. -/
@[simp]
theorem quotations_symbol (name : String) : (symbol name).quotations = quotedSymbol name := by
  unfold symbol quotedSymbol
  split
  · simp
  · simp

@[simp]
theorem quotations_slot (f : Function) (i : Nat) : (slot f i).quotations = [] := by
  unfold slot
  split
  · simp
  · simp

@[simp]
theorem quotations_label (name : String) : (label name).quotations = [] := by
  simp [label]

@[simp]
theorem quotations_text (s : String) : (string s).quotations = [.string (Text.utf8 s)] := by
  simp [string]

@[simp]
theorem quotations_number (n : Nat) : (number n).quotations = [] := by
  simp [number]

@[simp]
theorem quotations_constant (c : Constant) : (constant c).quotations = [] := by
  cases c <;> simp [constant, Sexp.quotationsAll_eq]

@[simp]
theorem flatMap_quotations_result (t : ValueType) : (result t).flatMap Sexp.quotations = [] := by
  unfold result
  split
  · simp [Sexp.quotationsAll_eq]
  · rfl

/-- An import quotes the names of its module and its base, and its own
name where that is no plain word. -/
theorem quotations_importLine (i : Import) :
    (importLine i).sexp.quotations
      = .string (Text.utf8 i.module) :: .string (Text.utf8 i.base) :: quotedSymbol i.name := by
  unfold importLine
  simp [Document.sexp, Sexp.quotationsAll_eq]

/-- The memory quotes the name that it is exported under. -/
theorem quotations_memoryLine (m : Memory) :
    (memoryLine m).sexp.quotations = [.string (Text.utf8 m.exportName)] := by
  simp [memoryLine, Document.sexp, Sexp.quotationsAll_eq]

/-- A segment quotes its bytes. -/
theorem quotations_segmentLine (s : Segment) :
    (segmentLine s).sexp.quotations = [.string s.bytes] := by
  simp [segmentLine, Document.sexp, Sexp.quotationsAll_eq]

/-- An export quotes its name, and the function if that is no plain
word. -/
theorem quotations_exportLine (e : Export) :
    (exportLine e).sexp.quotations = .string (Text.utf8 e.name) :: quotedSymbol e.function := by
  simp [exportLine, Document.sexp, Sexp.quotationsAll_eq]

/-- The parameters and the locals of a function are words. -/
theorem quotations_function (f : Function) :
    (function f).sexp.quotations
      = quotedSymbol f.name ++ f.body.flatMap fun e => (folded f e).quotations := by
  have hwords : ∀ slots : List (ValueType × Nat), slots.flatMap (fun _ => ([] : List Sexp)) = [] :=
    fun slots => List.flatMap_eq_nil_iff.mpr fun _ _ => rfl
  rw [sexp_function, foldedAll_eq_map]
  simp [Sexp.quotationsAll_eq, List.flatMap_map, hwords]

/-- The quotations of a module in order: imports, memory and segments,
functions, exports. -/
theorem quotations_document (m : Module) :
    (document m).sexp.quotations
      = m.imports.flatMap (fun i => (importLine i).sexp.quotations)
        ++ (.string (Text.utf8 m.memory.exportName)
          :: m.memory.segments.map fun s => .string s.bytes)
        ++ m.functions.flatMap (fun f => (function f).sexp.quotations)
        ++ m.exports.flatMap (fun e => (exportLine e).sexp.quotations) := by
  have hsegments : m.memory.segments.flatMap (fun s => [Sexp.string s.bytes])
      = m.memory.segments.map fun s => .string s.bytes :=
    List.map_eq_flatMap.symm
  rw [sexp_document, fields]
  simp [Sexp.quotationsAll_eq, List.flatMap_map, quotations_memoryLine, quotations_segmentLine,
    hsegments]

end Wat

-- ============================================== the atoms of a program

open Wat (quotedSymbol folded)

/-- The callee of an operation, if it needs quotes. -/
def Operation.quotedCallee : Operation → List Wat.Sexp
  | .call _ callee _ _ => quotedSymbol callee
  | _ => []

/-- The operands of an operation are words, so only its callee can need
quotes. -/
theorem quotations_operation (g : Function) (op : Operation) :
    (folded g op.toExpr).quotations = op.quotedCallee := by
  have hvalue : ∀ v : Value, (folded g v.toExpr).quotations = [] := by
    intro v
    cases v <;> simp [Value.toExpr, Expr.ofSlot, folded, Wat.Sexp.quotationsAll_eq]
  cases op with
  | init slot value =>
    simp [Operation.toExpr, folded, Wat.Sexp.quotationsAll_eq, hvalue, Operation.quotedCallee]
  | call target callee args result =>
    simp [Operation.toExpr, folded, Wat.Sexp.quotationsAll_eq, Wat.foldedAll_eq_map,
      List.flatMap_map, hvalue, Operation.quotedCallee]
  | ret slot =>
    simp [Operation.toExpr, Expr.ofSlot, folded, Wat.Sexp.quotationsAll_eq, Operation.quotedCallee]

/-- Only the calls of a body can need quotes, with a guard and without.
The labels are plain, and slots and constants are written as words. -/
theorem quotations_bodyCode (g : Function) {inits calls : List Operation}
    (hinits : ∀ op ∈ inits, op.isInit = true) (guard : Option Slot) (slot : Slot) :
    (bodyCode inits calls guard slot).flatMap (fun e => (folded g e).quotations)
      = calls.flatMap Operation.quotedCallee := by
  have hnone : inits.flatMap Operation.quotedCallee = [] := by
    refine List.flatMap_eq_nil_iff.mpr fun op hop => ?_
    have hop := hinits op hop
    cases op with
    | init slot value => rfl
    | call target callee args result => cases hop
    | ret slot => cases hop
  have hret : (Operation.ret slot).quotedCallee = [] := rfl
  have hbranch : ∀ l s test, (folded g (.branchOn l s test)).quotations = [] := by
    intro l s test
    cases test <;> simp [Expr.branchOn, Expr.ofSlot, folded, Wat.Sexp.quotationsAll_eq]
  cases guard with
  | none =>
    rw [bodyCode, bodyOperations]
    simp [List.flatMap_map, quotations_operation, hnone, hret]
  | some s =>
    rw [bodyCode, Graph.loopCode]
    simp [folded, Wat.foldedAll_eq_map, Wat.Sexp.quotationsAll_eq, List.flatMap_map, hbranch,
      quotations_operation, hnone, hret]

/-- A call is made under the name that it is written with. -/
theorem flatMap_quotedCallee {functions : FunctionTable} {symbols : SymbolTable}
    {cs : List Tree.Call} {ops : List Operation}
    (h : List.Forall₂ (LoweredCall functions symbols) cs ops) :
    ops.flatMap Operation.quotedCallee = cs.flatMap fun c => quotedSymbol c.callee.name := by
  induction h with
  | nil => rfl
  | cons hop _ ih =>
    rw [List.flatMap_cons, List.flatMap_cons, ih]
    cases hop
    rfl

namespace Tree

/-- What an import has in quotes: its module, its base and its name if
that is not plain. -/
def Import.quotations (i : Import) : List Wat.Sexp :=
  .string (Text.utf8 i.module) :: .string (Text.utf8 i.base) :: quotedSymbol i.id.name

/-- What a function has in quotes: its name and its callees, as far as
they are not plain. -/
def Function.quotations (f : Function) : List Wat.Sexp :=
  quotedSymbol f.name ++ f.body.allCalls.flatMap fun c => quotedSymbol c.callee.name

/-- What an export has in quotes: its name, and that of the function if
it is not plain. -/
def Export.quotations (e : Export) : List Wat.Sexp :=
  .string (Text.utf8 e.name) :: quotedSymbol e.id.name

/-- What the text of a program has in quotes, in order. -/
def Program.quotations (memory : Memory) (p : Program) : List Wat.Sexp :=
  p.imports.flatMap Import.quotations
    ++ (.string (Text.utf8 memory.exportName) :: memory.segments.map fun s => .string s.bytes)
    ++ p.functions.flatMap Function.quotations ++ p.exports.flatMap Export.quotations

end Tree

/-- A lowered function quotes what the function in the tree says it
does, since every name comes from there. -/
theorem quotations_loweredFunction {functions : FunctionTable} {f : Tree.Function} {g : Function}
    (h : (lowerFunction functions f).outcome = .ok g) :
    (Wat.function g).sexp.quotations = f.quotations := by
  obtain ⟨inits, calls, guard, slot, hparts, rfl⟩ := outcome_lowerFunction_eq_ok.mp h
  have hbody : (loweredFunction f inits calls guard slot).body = bodyCode inits calls guard slot :=
    rfl
  rw [Wat.quotations_function, hbody, quotations_bodyCode _ hparts.inits.isInit,
    flatMap_quotedCallee hparts.calls]
  rfl

/-- The memory helpers have plain names. -/
theorem quotations_builtin (b : Builtin) : (Wat.function b.toFunction).sexp.quotations = [] := by
  have hplain : quotedSymbol b.name = [] := by cases b <;> rfl
  have hbody : ∀ e ∈ b.body, (folded b.toFunction e).quotations = [] := by
    cases b <;> simp [Builtin.body, Builtin.isStore, folded, Wat.Sexp.quotationsAll_eq]
  rw [Wat.quotations_function]
  exact List.append_eq_nil_iff.mpr ⟨hplain, List.flatMap_eq_nil_iff.mpr hbody⟩

/-- What the text of a lowered program has in quotes comes from the
program and its memory. -/
theorem quotations_loweredModule (memory : Memory) {p : Tree.Program} {gs : List Function}
    (h : LoweredProgram p gs) :
    (Wat.document (loweredModule memory p gs)).sexp.quotations = p.quotations memory := by
  have hfunctions : ∀ {fs gs}, List.Forall₂ (fun f g =>
      (lowerFunction { entries := p.callables } f).outcome = .ok g) fs gs →
      gs.flatMap (fun g => (Wat.function g).sexp.quotations)
        = fs.flatMap Tree.Function.quotations := by
    intro fs gs hgs
    induction hgs with
    | nil => rfl
    | cons hg _ ih =>
      rw [List.flatMap_cons, List.flatMap_cons, ih, quotations_loweredFunction hg]
  have hbuiltins : Builtin.functions.flatMap (fun g => (Wat.function g).sexp.quotations) = [] := by
    rw [Builtin.functions, List.flatMap_map]
    exact List.flatMap_eq_nil_iff.mpr fun b _ => quotations_builtin b
  rw [Wat.quotations_document]
  simp only [loweredModule, List.flatMap_map, List.flatMap_append, hbuiltins, List.nil_append,
    hfunctions h.functions, Wat.quotations_importLine, Wat.quotations_exportLine]
  rfl

/-- Nothing breaks out of the text of an accepted program, whatever
characters its names and whatever bytes its data have. The pieces of the
text are the text, and none of them is a comment. They are the tokens of
one s-expression. Those with quotes are, in order, the names and data of
the program and its memory: each ends at its own closing quote, and is
read back as the bytes that it was made from. -/
theorem lower_emit_sealed {memory : Memory} {p : Tree.Program} {m : Module} {text : String}
    (hlower : (lower memory p).outcome = .ok m) (htext : (Wat.emit m).outcome = .ok text) :
    ∃ pieces tokens fields,
      Wat.pieces? text.toList = some pieces
        ∧ pieces.flatMap Wat.Piece.chars = text.toList
        ∧ (∀ piece ∈ pieces, piece.isComment = false)
        ∧ (pieces.filter (!·.isBlank)).mapM Wat.Piece.token? = some tokens
        ∧ Wat.nest [] [] tokens = some [.list (.word "module" :: fields)]
        ∧ pieces.filterMap Wat.Piece.quotation?
            = (p.quotations memory).map (fun s => s.text.toList)
        ∧ (pieces.filterMap Wat.Piece.quotation?).mapM Wat.atom? = some (p.quotations memory) := by
  obtain ⟨gs, hprogram, rfl⟩ := outcome_lowerProgram_eq_ok.mp hlower
  obtain ⟨-, rfl⟩ := Wat.outcome_emit_eq_ok.mp htext
  have hquotations := quotations_loweredModule memory hprogram
  have hwords := Wat.hasWords_document (readable_loweredModule memory hprogram).labels
  generalize loweredModule memory p gs = m at hquotations hwords ⊢
  have hatomic := (Wat.document m).sexp.isAtomic_tokens hwords
  have hsealed := Wat.Document.sealed_text (Wat.document m) 0 hwords .nil
  rw [List.append_nil, List.append_nil] at hsealed
  have hnest := (Wat.document m).sexp.nest_tokens [] [] []
  rw [List.append_nil, Wat.sexp_document] at hnest
  obtain ⟨pieces, hpieces, hchars, hcomment, htokens, hquoted⟩ := hsealed.reads hatomic
  have hback := Wat.mapM_atom? hatomic
  rw [Wat.Sexp.filterMap_tokens, hquotations] at hquoted hback
  refine ⟨pieces, _, Wat.fields m, hpieces, hchars, hcomment, htokens, ?_, hquoted, ?_⟩
  · rw [Wat.sexp_document]
    exact hnest
  · rw [hquoted, hback]

/-- A program whose names have quotes, backslashes, brackets and the
marks of comments. -/
def Tree.Program.hostile : Tree.Program where
  imports := [{ id := { name := "f\" (;x" }, module := "a\\b", base := "\";; ", result := .i32 }]
  functions := [{ id := { name := "))" }
                  result := .i32
                  body := { vars := [{ id := { name := "\"y" }, type := .i32 }]
                            calls := [{ target := { name := "\"y" }
                                        callee := { name := "f\" (;x" } }] } }]
  exports := [{ id := { name := "))" }, name := "ü\"" }]

/-- A memory with such a name and such bytes. -/
def Memory.hostile : Memory where
  exportName := "m\")(;"
  segments := [⟨0, [0x22, 0x5C, 0x0A, 0xFF]⟩]

/-- The quoted tokens in the text of `hostile`. -/
theorem hostile_sealed :
    ∃ (m : Module) (text : String) (pieces : List Wat.Piece),
      (lower .hostile .hostile).outcome = .ok m ∧ (Wat.emit m).outcome = .ok text
        ∧ Wat.pieces? text.toList = some pieces
        ∧ (∀ piece ∈ pieces, piece.isComment = false)
        ∧ pieces.filterMap Wat.Piece.quotation?
            = ["\"a\\\\b\"", "\"\\\";; \"", "$\"f\\\" (;x\"", "\"m\\\")(;\"",
                "\"\\\"\\\\\\0a\\ff\"", "$\"))\"", "$\"f\\\" (;x\"", "\"\\c3\\bc\\\"\"",
                "$\"))\""].map String.toList := by
  obtain ⟨m, hm, hvalid⟩ : ∃ m : Module,
      (lower .hostile .hostile).outcome = .ok m ∧ m.validate = .ok () :=
    ⟨_, rfl, rfl⟩
  have htext : (Wat.emit m).outcome = .ok _ := Wat.outcome_emit_eq_ok.mpr ⟨hvalid, rfl⟩
  obtain ⟨pieces, -, -, hpieces, -, hcomment, -, -, hquoted, -⟩ := lower_emit_sealed hm htext
  exact ⟨m, _, pieces, hm, htext, hpieces, hcomment, hquoted.trans (by decide)⟩

end CallFlow
