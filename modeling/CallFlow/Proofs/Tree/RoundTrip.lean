/-
A program tree is read back from its JSON text.

Each node is a record: its members stand in the order of its columns, so it is read back if its
parts are. An optional part is a member or none, and a list is always a member. The levels of
nesting of each node are counted on the way, and a whole program stays far below the limit.
-/
import CallFlow.Proofs.Basic
import CallFlow.Proofs.Json.Reading
import CallFlow.Tree.Reader
import CallFlow.Tree.Writer

namespace CallFlow

open Json

-- ============================================================= columns

namespace Json.Aligned

variable {α : Type} {n m : Nat} {name : String} {columns : List Column} {row : Row columns}
  {ms : List (String × Document)} {r : Reader α} {write : α → Document}

/-- A part that may be left out. -/
theorem optional {required : Bool} {o : Option α} (hm : m ≤ n)
    (h : ∀ a ∈ o, Reads m r (write a) a) (rest : Aligned n columns ms row) :
    Aligned n (⟨name, Option α, .optional r, required⟩ :: columns) (member? name write o ++ ms)
      (o.map some, row) := by
  cases o with
  | none => exact .absent rest
  | some a => exact .present hm (h a rfl).optional rest

end Json.Aligned

theorem reads_location (l : Location) : Reads 1 Location.reader l.document l :=
  .record (Nat.le_refl 0) (reads_natural l.line)
    (.present (Nat.le_refl 0) (reads_natural l.column)
      (.present (Nat.le_refl 0) (reads_natural l.offset) .nil)) (by decide) rfl

theorem reads_span (s : Span) : Reads 2 Span.reader s.document s :=
  .record (Nat.le_refl 1) (reads_location s.start)
    (.present (Nat.le_refl 1) (reads_location s.stop) .nil) (by decide) rfl

namespace Tree

/-- The location stands last. -/
theorem aligned_span {n : Nat} (hn : 2 ≤ n) (span : Option Span) :
    Aligned n [spanColumn] (spanMember span) (span.map some, ()) := by
  rw [← List.append_nil (spanMember span)]
  exact .optional hn (fun s _ => reads_span s) .nil

@[simp]
theorem join_map_some {α : Type} (o : Option α) : (o.map some).join = o := by
  cases o <;> rfl

/-- An identifier is read back with its span, whether it has one or not. -/
theorem reads_identifier (id : Identifier) : Reads 3 Identifier.reader id.document id := by
  refine .record (by decide) (reads_text id.tag) (.present (by decide) (reads_text id.name)
    (aligned_span (by decide) id.span)) (by decide) ?_
  show Except.ok (Identifier.mk id.tag id.name (id.span.map some).join) = _
  rw [join_map_some]

-- ============================================================ literals

section Literals

variable {depth : Nat} {cs t rest : List Char} {number : Number}

theorem anyValue_digit {c : Char} (hcs : skipBlank cs = c :: t) (hc : c.isDigit = true)
    (hminus : c ≠ '-') (hread : Number.read false (c :: t) = .ok (number, rest)) :
    Gives anyValue (depth + 1) cs (some number) rest := by
  show Gives (Reader.peek? >>= _) (depth + 1) cs (some number) rest
  refine (Gives.peek? _ hcs).bind ?_
  dsimp only
  rw [if_neg hminus, if_pos hc]
  exact Gives.map some hread

theorem anyValue_minus (hcs : skipBlank cs = '-' :: t)
    (hread : Number.read true t = .ok (number, rest)) :
    Gives anyValue (depth + 1) cs (some number) rest := by
  show Gives (Reader.peek? >>= _) (depth + 1) cs (some number) rest
  exact (Gives.peek? _ hcs).bind ((Gives.advance _ _ _).bind (Gives.map some hread))

theorem literal_of_anyValue (h : Gives anyValue depth cs (some number) rest) :
    Gives Literal.reader depth cs (.ofNumber number) rest := by
  unfold Literal.reader
  exact Gives.bind h (.pure _ _ _)

end Literals

/-- A literal that is not negative is read back from its digits, if it
fits into 64 bits with a sign. -/
theorem reads_ofNat {k : Nat} (hk : k < 0x8000000000000000) :
    Reads 0 Literal.reader (.number (toString (Int.ofNat k))) (.int (.ofInt (.ofNat k))) := by
  obtain ⟨c, t, ht, hc, hminus⟩ := toDigits_eq_cons k
  have hliteral : Literal.ofNumber (Number.integer false k) = .int (.ofInt (.ofNat k)) := by
    show (if k < 0x8000000000000000 then Literal.int (Int64.ofNat k) else _) = _
    rw [if_pos hk]
    rfl
  refine ⟨fun level => ⟨c, t, ?_, by simp [isStart, hc]⟩, ?_⟩
  · rw [Document.pretty, toList_toString_ofNat, ht]
  intro depth level cs rest hdepth hrest hcs
  obtain ⟨depth, rfl⟩ := Nat.exists_eq_succ_of_ne_zero (Nat.ne_zero_of_lt hdepth)
  have hread := Number.read_toDigits false (Nat.le_trans (Nat.le_of_lt hk) (by decide)) hrest
  rw [Document.pretty, toList_toString_ofNat] at hcs
  rw [ht] at hread hcs
  rw [← hliteral]
  exact literal_of_anyValue (anyValue_digit hcs hc hminus hread)

/-- A negative literal is read back from its minus and its digits. There
is one more of these than of the others. -/
theorem reads_negSucc {k : Nat} (hk : k + 1 ≤ 0x8000000000000000) :
    Reads 0 Literal.reader (.number (toString (Int.negSucc k))) (.int (.ofInt (.negSucc k))) := by
  have hliteral : Literal.ofNumber (Number.integer true (k + 1))
      = .int (.ofInt (.negSucc k)) := by
    have hint : Number.integer true (k + 1) = .negative (-((k + 1 : Nat) : Int)) := by
      rw [Number.integer, if_neg (by decide), if_neg (by omega)]
    rw [hint]
    rfl
  refine ⟨fun level => ⟨'-', Nat.toDigits 10 (k + 1), ?_, rfl⟩, ?_⟩
  · rw [Document.pretty, toList_toString_negSucc]
  intro depth level cs rest hdepth hrest hcs
  obtain ⟨depth, rfl⟩ := Nat.exists_eq_succ_of_ne_zero (Nat.ne_zero_of_lt hdepth)
  have hread := Number.read_toDigits true (Nat.le_trans hk (by decide)) hrest
  rw [Document.pretty, toList_toString_negSucc] at hcs
  rw [← hliteral]
  exact literal_of_anyValue (anyValue_minus hcs hread)

/-- An integer is read back from its text, with its sign. -/
theorem reads_integer (n : Int64) :
    Reads 0 Literal.reader (Literal.document (.int n)) (.int n) := by
  show Reads 0 Literal.reader (.number (toString n.toInt)) (.int n)
  have hlow := n.le_toInt
  have hhigh := n.toInt_lt
  have hback : Int64.ofInt n.toInt = n := Int64.ofInt_toInt n
  generalize n.toInt = i at hlow hhigh hback ⊢
  subst hback
  cases i with
  | ofNat k =>
    have hk : (k : Int) < 2 ^ 63 := hhigh
    exact reads_ofNat (by omega)
  | negSucc k =>
    have hk : -2 ^ 63 ≤ -((k : Int) + 1) := hlow
    exact reads_negSucc (by omega)

-- =============================================================== nodes

/-- The literal of an operand, if it has one, is an integer. -/
def Operand.IsIntegral (o : Operand) : Prop :=
  ∀ x ∈ o.value, ∃ n, x = .int n

/-- The operands of a body: initial values and arguments. -/
def Body.operands (b : Body) : List Operand :=
  b.vars.filterMap Variable.init ++ b.calls.flatMap Call.args
    ++ b.loop.toList.flatMap fun l => l.calls.flatMap Call.args

/-- The operands of a program. -/
def Program.operands (p : Program) : List Operand :=
  p.functions.flatMap fun f => f.body.operands

/-- An operand is read back if it is no fraction, as only integers are
written so that they can be read back. -/
theorem reads_operand {o : Operand} (h : o.IsIntegral) :
    Reads 3 Operand.reader o.document o := by
  have hvalue : ∀ x ∈ o.value, Reads 0 Literal.reader (Literal.document x) x := by
    intro x hx
    obtain ⟨n, rfl⟩ := h x hx
    exact reads_integer n
  have hmembers : o.document = .object (("type", .text o.tag) :: (member? "name" .text o.name
      ++ (member? "value" Literal.document o.value ++ spanMember o.span))) := by
    simp [Operand.document, member]
  rw [hmembers]
  refine .record (by decide) (reads_text o.tag) (.optional (by decide) (fun s _ => reads_text s)
    (.optional (by decide) hvalue (aligned_span (by decide) o.span))) (by decide) ?_
  show Except.ok (Operand.mk o.tag (o.name.map some).join (o.value.map some).join
    (o.span.map some).join) = _
  rw [join_map_some, join_map_some, join_map_some]

/-- A call is read back if its arguments are: each node asks for what
its parts ask for, with one or two levels more. -/
theorem reads_call {c : Call} (h : ∀ o ∈ c.args, o.IsIntegral) :
    Reads 5 Call.reader c.document c := by
  have hargs := Reads.list fun o ho => reads_operand (h o ho)
  refine .record (by decide) (reads_text c.tag) (.present (by decide) (reads_identifier c.target)
    (.present (by decide) (reads_identifier c.callee) (.present (by decide) hargs
      (aligned_span (by decide) c.span)))) (by decide) ?_
  show Except.ok (Call.mk c.tag c.target c.callee c.args (c.span.map some).join) = _
  rw [join_map_some]

theorem reads_loop {l : Loop} (h : ∀ c ∈ l.calls, ∀ o ∈ c.args, o.IsIntegral) :
    Reads 7 Loop.reader l.document l := by
  have hcalls := Reads.list fun c hc => reads_call (h c hc)
  refine .record (by decide) (reads_text l.tag) (.present (by decide)
    (reads_identifier l.condition) (.present (by decide) hcalls
      (aligned_span (by decide) l.span))) (by decide) ?_
  show Except.ok (Loop.mk l.tag l.condition l.calls (l.span.map some).join) = _
  rw [join_map_some]

/-- A variable is read back if the value it starts with is. -/
theorem reads_variable {v : Variable} (h : ∀ o ∈ v.init, o.IsIntegral) :
    Reads 4 Variable.reader v.document v := by
  have hmembers : v.document = .object (("type", .text v.tag) :: ("id", v.id.document)
      :: ("variableType", v.type.document) :: (member? "iniValue" Operand.document v.init
        ++ spanMember v.span)) := by
    simp [Variable.document]
  rw [hmembers]
  refine .record (by decide) (reads_text v.tag) (.present (by decide) (reads_identifier v.id)
    (.present (by decide) (reads_valueType v.type) (.optional (by decide)
      (fun o ho => reads_operand (h o ho)) (aligned_span (by decide) v.span)))) (by decide) ?_
  show Except.ok (Variable.mk v.tag v.id v.type (v.init.map some).join (v.span.map some).join) = _
  rw [join_map_some, join_map_some]

/-- A body is read back if all operands anywhere in it are integral. -/
theorem reads_body {b : Body} (h : ∀ o ∈ b.operands, o.IsIntegral) :
    Reads 8 Body.reader b.document b := by
  simp only [Body.operands, List.mem_append, List.mem_filterMap, List.mem_flatMap,
    Option.mem_toList] at h
  have hvars := Reads.list fun v hv => reads_variable fun o ho => h o (.inl (.inl ⟨v, hv, ho⟩))
  have hcalls := Reads.list fun c hc => reads_call fun o ho => h o (.inl (.inr ⟨c, hc, ho⟩))
  have hloop : ∀ l ∈ b.loop, Reads 7 Loop.reader l.document l :=
    fun l hl => reads_loop fun c hc o ho => h o (.inr ⟨l, hl, c, hc, ho⟩)
  have hmembers : b.document = .object (("type", .text b.tag)
      :: ("variables", .list (b.vars.map Variable.document))
      :: ("calls", .list (b.calls.map Call.document))
      :: (member? "loop" Loop.document b.loop ++ spanMember b.span)) := by
    simp [Body.document]
  rw [hmembers]
  refine .record (by decide) (reads_text b.tag) (.present (by decide) hvars
    (.present (by decide) hcalls (.optional (by decide) hloop
      (aligned_span (by decide) b.span)))) (by decide) ?_
  show Except.ok (Body.mk b.tag b.vars b.calls (b.loop.map some).join (b.span.map some).join) = _
  rw [join_map_some, join_map_some]

/-- A parameter has no operands, so it is read back in any case. -/
theorem reads_param (p : Param) : Reads 4 Param.reader p.document p := by
  refine .record (by decide) (reads_text p.tag) (.present (by decide) (reads_identifier p.id)
    (.present (by decide) (reads_valueType p.type) (aligned_span (by decide) p.span)))
    (by decide) ?_
  show Except.ok (Param.mk p.tag p.id p.type (p.span.map some).join) = _
  rw [join_map_some]

theorem reads_function {f : Function} (h : ∀ o ∈ f.body.operands, o.IsIntegral) :
    Reads 9 Function.reader f.document f := by
  have hparams := Reads.list fun p (_ : p ∈ f.params) => reads_param p
  refine .record (by decide) (reads_text f.tag) (.present (by decide) (reads_identifier f.id)
    (.present (by decide) hparams (.present (by decide) (reads_valueType f.result)
      (.present (by decide) (reads_body h) (aligned_span (by decide) f.span))))) (by decide) ?_
  show Except.ok (Function.mk f.tag f.id f.params f.result f.body (f.span.map some).join) = _
  rw [join_map_some]

/-- An import has no operands either. -/
theorem reads_import (i : Import) : Reads 4 Import.reader i.document i := by
  have hparams := Reads.list fun t (_ : t ∈ i.params) => reads_valueType t
  refine .record (by decide) (reads_text i.tag) (.present (by decide) (reads_identifier i.id)
    (.present (by decide) (reads_text i.module) (.present (by decide) (reads_text i.base)
      (.present (by decide) hparams (.present (by decide) (reads_valueType i.result)
        (aligned_span (by decide) i.span)))))) (by decide) ?_
  show Except.ok (Import.mk i.tag i.id i.module i.base i.params i.result
    (i.span.map some).join) = _
  rw [join_map_some]

/-- Neither has an export. -/
theorem reads_export (e : Export) : Reads 4 Export.reader e.document e := by
  refine .record (by decide) (reads_text e.tag) (.present (by decide) (reads_identifier e.id)
    (.present (by decide) (reads_text e.name) (aligned_span (by decide) e.span))) (by decide) ?_
  show Except.ok (Export.mk e.tag e.id e.name (e.span.map some).join) = _
  rw [join_map_some]

/-- A program is read back if all its operands are integral, eleven
levels deep at most. -/
theorem reads_program {p : Program} (h : ∀ o ∈ p.operands, o.IsIntegral) :
    Reads 11 Program.reader p.document p := by
  simp only [Program.operands, List.mem_flatMap] at h
  have himports := Reads.list fun i (_ : i ∈ p.imports) => reads_import i
  have hfunctions := Reads.list fun f hf => reads_function fun o ho => h o ⟨f, hf, ho⟩
  have hexports := Reads.list fun e (_ : e ∈ p.exports) => reads_export e
  refine .record (by decide) (reads_text p.tag) (.present (by decide) himports
    (.present (by decide) hfunctions (.present (by decide) hexports
      (aligned_span (by decide) p.span)))) (by decide) ?_
  show Except.ok (Program.mk p.tag p.imports p.functions p.exports (p.span.map some).join) = _
  rw [join_map_some]

/-- A program whose literals are integers is read back from its JSON
text as it is, whatever characters its names and tags have, whatever
numbers its locations have, and whatever optional parts are there. -/
theorem ofJson_toJson {p : Program} (h : ∀ o ∈ p.operands, o.IsIntegral) :
    Program.ofJson p.toJson = .ok p :=
  (reads_program h).run (by decide)

/-- A span with the greatest numbers. -/
def limitSpan : Span := ⟨⟨0, 1, 0⟩, ⟨18446744073709551615, 1, 18446744073709551615⟩⟩

/-- A call with an argument of each form. -/
def limitCall : Call where
  target := { name := "y" }
  callee := { name := "g" }
  args := [.integer .i32 Int64.maxValue, .reference "\\u0000", .void]

/-- A program at the limits: escaped and far characters in names and
tags, the least and the greatest numbers, and every optional part
present in one place and left out in another. -/
def Program.limits : Program where
  tag := "\x00\t\x7f"
  imports := [{ id := { name := "\"\\/" }, module := "", base := "\n\x1b", params := [.f64, .i64]
                result := .void }]
  functions := [{ id := { tag := "Größe", name := "𝔣", span := some limitSpan }
                  params := [{ id := { name := "x" }, type := .i64 }]
                  result := .i64
                  body := { vars := [{ id := { name := "_breqz" }, type := .i64
                                       init := some (.integer .i64 Int64.minValue) },
                                     { id := { name := "" }, type := .f64 }]
                            calls := [limitCall]
                            loop := some { condition := { name := "\u2028" }
                                           calls := [limitCall] }
                            span := some limitSpan } },
                { id := { name := "h" }, result := .void, body := { } }]
  exports := [{ id := { name := "𝔣" }, name := "\x7b\"type\": null\x7d" }]

/-- The program at the limits is read back. -/
theorem limits_ofJson_toJson :
    (∀ o ∈ Program.limits.operands, o.IsIntegral)
      ∧ Program.ofJson Program.limits.toJson = .ok Program.limits := by
  have h : ∀ o ∈ Program.limits.operands, o.IsIntegral := by
    simp [Program.limits, limitCall, Program.operands, Body.operands,
      Operand.IsIntegral, Operand.integer, Operand.reference, Operand.void]
  exact ⟨h, ofJson_toJson h⟩

end Tree

end CallFlow
