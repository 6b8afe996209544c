/-
The text and the binary of a module have the same code.

Unfolding a folded expression gives the instructions of the expression, by induction on
it: operands come first in both, a slot has the number of its declaration, a function
that of its name, and a branch leads to the innermost label on either side. What a
double is read as from its text is left open; every other instruction is the same.
-/
import CallFlow.Proofs.Code.Checks
import CallFlow.Proofs.Wasm.Sections
import CallFlow.Proofs.Wat.Unfolding

namespace CallFlow.Wat

open CallFlow.Expr (check checkAll)
open Wasm (Instruction instructions instructionsAll)

/-- An instruction as it is read back: a double is read from its text. -/
def reread (double? : String → Option Binary64) : Instruction → Option Instruction
  | .f64Const v => (double? (Layout.wat.text v)).map .f64Const
  | i => some i

/-- If the texts of the doubles in it are read as what they were written
for, code is read back as it is. -/
theorem mapM_reread {double? : String → Option Binary64} {code : List Instruction}
    (h : ∀ v, .f64Const v ∈ code → double? (Layout.wat.text v) = some v) :
    code.mapM (reread double?) = some code := by
  induction code with
  | nil => rfl
  | cons i code ih =>
    have hi : reread double? i = some i := by
      cases i with
      | f64Const v => rw [reread, h v List.mem_cons_self, Option.map_some]
      | _ => rfl
    rw [List.mapM_cons, hi, ih fun v hv => h v (List.mem_cons_of_mem i hv)]
    rfl

namespace Scope

variable {S : Scope} {labels : List String} {keyword : String} {operands : List Sexp}
  {code code' : List Instruction}

-- ========================================================== one operator

theorem unfoldAll_nil : S.unfoldAll labels [] = List.mapM (reread S.double?) [] :=
  rfl

/-- Expressions unfold in order, if the first and the others do. -/
theorem unfoldAll_cons {s : Sexp} {ss : List Sexp}
    (h : S.unfold labels s = code.mapM (reread S.double?))
    (h' : S.unfoldAll labels ss = code'.mapM (reread S.double?)) :
    S.unfoldAll labels (s :: ss) = (code ++ code').mapM (reread S.double?) := by
  rw [unfoldAll, h, h', List.mapM_append]

theorem unfoldAll_singleton {s : Sexp} (h : S.unfold labels s = code.mapM (reread S.double?)) :
    S.unfoldAll labels [s] = code.mapM (reread S.double?) := by
  have hone := unfoldAll_cons h unfoldAll_nil
  rwa [List.append_nil] at hone

/-- An instruction without immediate comes behind its operands. -/
theorem unfold_bare {i : Instruction} (hkeyword : enclosing? keyword = none)
    (hi : bare? keyword = some i) (hsame : reread S.double? i = some i)
    (h : S.unfoldAll labels operands = code.mapM (reread S.double?)) :
    S.unfold labels (.list (.word keyword :: operands))
      = (code ++ [i]).mapM (reread S.double?) := by
  unfold Scope.unfold
  simp only [hkeyword, hi, h, List.mapM_append, List.mapM_cons, List.mapM_nil, hsame]
  rfl

/-- An instruction with an immediate comes behind its operands too, with
the immediate read from the word behind the keyword. -/
theorem unfold_immediate {immediate : Sexp} {i : Instruction} (hkeyword : enclosing? keyword = none)
    (hbare : bare? keyword = none) (hi : S.immediate? labels keyword immediate = reread S.double? i)
    (h : S.unfoldAll labels operands = code.mapM (reread S.double?)) :
    S.unfold labels (.list (.word keyword :: immediate :: operands))
      = (code ++ [i]).mapM (reread S.double?) := by
  unfold Scope.unfold
  simp only [hkeyword, hbare, h, hi, List.mapM_append, List.mapM_cons, List.mapM_nil, bind_assoc,
    pure_bind]

/-- A block or a loop unfolds to the instruction that opens it, its body
under one more label, and the one that closes it. -/
theorem unfold_enclosing {start : Instruction} {label : String}
    (hkeyword : enclosing? keyword = some start) (hsame : reread S.double? start = some start)
    (h : S.unfoldAll (label :: labels) operands = code.mapM (reread S.double?)) :
    S.unfold labels (.list (.word keyword :: .word label :: operands))
      = (start :: code ++ [Instruction.stop]).mapM (reread S.double?) := by
  have hstop : reread S.double? .stop = some .stop := rfl
  unfold Scope.unfold
  simp only [hkeyword, h, List.mapM_append, List.mapM_cons, List.mapM_nil, hsame, hstop]
  cases code.mapM (reread S.double?) <;> rfl

end Scope

-- ============================================================= expressions

/-- What a function of a module is read against. -/
structure Scope.Of (S : Scope) (m : Module) (f : Function) : Prop where
  functions : S.functions = m.callables.map Text.utf8
  locals : S.locals = slotWords f
  names : f.slotNames.Nodup

section

variable {S : Scope} {m : Module} {f : Function}

/-- The word that is written for a slot is found among the declared
slots, at the number of the slot. -/
theorem Scope.Of.slot? (hS : S.Of m f) {i : Nat} {t : ValueType} (h : f.slotType? i = some t) :
    Wat.slot? S.locals (slotWord f i) = some i := by
  have hi : i < f.slotCount := by
    rw [Function.slotCount, ← List.length_append]
    exact (List.getElem?_eq_some_iff.mp h).1
  rw [hS.locals, slot?_slotWord hS.names hi]

/-- A function is found at the place that the module has it at. -/
theorem Scope.Of.index? (hS : S.Of m f) (name : String) :
    (S.functions.findIdx? fun function => function == Text.utf8 name) = m.index? name := by
  rw [hS.functions, findIdx?_map_injective Text.utf8_injective, m.index?_eq]

/-- A constant unfolds to the instruction that pushes it, with doubles
read back from their digits. -/
theorem unfold_constant (labels : List String) (c : Constant) :
    S.unfold labels (constant c) = [Wasm.constantOf c].mapM (reread S.double?) := by
  cases c with
  | i32 v =>
    have hread : integer? 32 (toString v.toInt) = some v.toInt :=
      integer?_toString v.le_toInt (by have := v.toInt_lt; omega)
    refine Scope.unfold_immediate rfl rfl ?_ Scope.unfoldAll_nil
    show (integer? 32 (toString v.toInt)).map (fun n => Instruction.i32Const (Int32.ofInt n)) = _
    rw [hread, Option.map_some, Int32.ofInt_toInt]
    rfl
  | i64 v =>
    have hread : integer? 64 (toString v.toInt) = some v.toInt :=
      integer?_toString v.le_toInt (by have := v.toInt_lt; omega)
    refine Scope.unfold_immediate rfl rfl ?_ Scope.unfoldAll_nil
    show (integer? 64 (toString v.toInt)).map (fun n => Instruction.i64Const (Int64.ofInt n)) = _
    rw [hread, Option.map_some, Int64.ofInt_toInt]
    rfl
  | f64 v => exact Scope.unfold_immediate rfl rfl rfl Scope.unfoldAll_nil

/-- A read unfolds to the instruction that reads the slot. -/
theorem unfold_get (hS : S.Of m f) (labels : List String) {i : Nat} {t : ValueType}
    (h : f.slotType? i = some t) :
    S.unfold labels (folded f (.get i t)) = [Instruction.localGet i].mapM (reread S.double?) := by
  rw [folded, slot_eq_word]
  refine Scope.unfold_immediate rfl rfl ?_ Scope.unfoldAll_nil
  show (slot? S.locals (slotWord f i)).map Instruction.localGet = _
  rw [hS.slot? h]
  rfl

/-- The depth of a label in the text is that of the branch, since labels
are pushed in the same order on both sides. -/
theorem immediate?_branchIf {labels : List String} {l : String} {depth : Nat}
    (h : (labels.findIdx? fun label => label == l) = some depth) :
    S.immediate? (labels.map fun l => "$" ++ l) "br_if" (label l)
      = reread S.double? (.branchIf depth) := by
  show ((labels.map fun l => "$" ++ l).findIdx? fun label => label == "$" ++ l).map
    Instruction.branchIf = _
  rw [findIdx?_map_injective dollar_injective, h]
  rfl

mutual

/-- Unfolding an expression in folded form gives its instructions. The
recursion is over the expression, and both sides push a label where they
enter a block. The hypothesis on the scope says that words for slots and
functions are found again. -/
theorem unfold_folded (hS : S.Of m f) {labels : List String} :
    ∀ e {code}, check m f labels e = .ok () → instructions m.index? labels e = .ok code →
      S.unfold (labels.map fun l => "$" ++ l) (folded f e) = code.mapM (reread S.double?)
  | .const c, code, _, h => by
    cases h
    exact unfold_constant _ c
  | .get i t, code, hcheck, h => by
    cases h
    exact unfold_get hS _ (Expr.check_get.mp hcheck)
  | .set i v, code, hcheck, h => by
    obtain ⟨hslot, hv⟩ := Expr.check_set.mp hcheck
    simp only [instructions, bind_eq_ok, pure_eq_ok] at h
    obtain ⟨value, hvalue, rfl⟩ := h
    rw [folded, slot_eq_word]
    refine Scope.unfold_immediate rfl rfl ?_
      (Scope.unfoldAll_singleton (unfold_folded hS v hv hvalue))
    show (slot? S.locals (slotWord f i)).map Instruction.localSet = _
    rw [hS.slot? hslot]
    rfl
  | .call g args result, code, hcheck, h => by
    obtain ⟨-, hargs⟩ := Expr.check_call.mp hcheck
    simp only [instructions, bind_eq_ok] at h
    obtain ⟨operands, hoperands, h⟩ := h
    cases hindex : m.index? g with
    | none =>
      rw [hindex] at h
      cases h
    | some i =>
      rw [hindex] at h
      cases h
      refine Scope.unfold_immediate rfl rfl ?_ (unfoldAll_foldedAll hS args hargs hoperands)
      show (identifier? (symbol g)).bind (fun name =>
        (S.functions.findIdx? fun function => function == name).map Instruction.call) = _
      rw [identifier?_symbol, Option.bind_some, hS.index?, hindex]
      rfl
  | .load t a, code, hcheck, h => by
    obtain ⟨ha, -, haccess⟩ := Expr.check_load.mp hcheck
    simp only [instructions, bind_eq_ok, pure_eq_ok] at h
    obtain ⟨address, haddress, rfl⟩ := h
    have hoperands := Scope.unfoldAll_singleton (unfold_folded hS a ha haddress)
    rcases haccess with rfl | rfl
    · exact Scope.unfold_bare rfl rfl rfl hoperands
    · exact Scope.unfold_bare rfl rfl rfl hoperands
  | .store t a v, code, hcheck, h => by
    obtain ⟨ha, -, haccess, hv, -⟩ := Expr.check_store.mp hcheck
    simp only [instructions, bind_eq_ok, pure_eq_ok] at h
    obtain ⟨address, haddress, value, hvalue, rfl⟩ := h
    have hoperands := Scope.unfoldAll_cons (unfold_folded hS a ha haddress)
      (Scope.unfoldAll_singleton (unfold_folded hS v hv hvalue))
    rcases haccess with rfl | rfl
    · exact Scope.unfold_bare rfl rfl rfl hoperands
    · exact Scope.unfold_bare rfl rfl rfl hoperands
  | .returnValue v, code, hcheck, h => by
    obtain ⟨hv, -⟩ := Expr.check_returnValue.mp hcheck
    simp only [instructions, bind_eq_ok, pure_eq_ok] at h
    obtain ⟨value, hvalue, rfl⟩ := h
    exact Scope.unfold_bare rfl rfl rfl (Scope.unfoldAll_singleton (unfold_folded hS v hv hvalue))
  | .returnNone, code, _, h => by
    cases h
    exact Scope.unfold_bare rfl rfl rfl Scope.unfoldAll_nil
  | .block l body, code, hcheck, h => by
    simp only [instructions, bind_eq_ok, pure_eq_ok] at h
    obtain ⟨inside, hinside, rfl⟩ := h
    exact Scope.unfold_enclosing rfl rfl (unfoldAll_foldedAll hS body hcheck hinside)
  | .loop l body, code, hcheck, h => by
    simp only [instructions, bind_eq_ok, pure_eq_ok] at h
    obtain ⟨inside, hinside, rfl⟩ := h
    exact Scope.unfold_enclosing rfl rfl (unfoldAll_foldedAll hS body hcheck hinside)
  | .branchIf l c test, code, hcheck, h => by
    obtain ⟨-, hc, -⟩ := Expr.check_branchIf.mp hcheck
    rw [instructions] at h
    cases hdepth : labels.findIdx? fun label => label == l with
    | none =>
      rw [hdepth] at h
      cases h
    | some depth =>
      simp only [hdepth, bind_eq_ok] at h
      obtain ⟨condition, hcondition, h⟩ := h
      have hoperand := Scope.unfoldAll_singleton (unfold_folded hS c hc hcondition)
      cases test with
      | zero =>
        cases h
        have htest : S.unfold _ (.list [.word "i32.eqz", folded f c]) = _ :=
          Scope.unfold_bare rfl rfl rfl hoperand
        rw [List.append_cons]
        exact Scope.unfold_immediate rfl rfl (immediate?_branchIf hdepth)
          (Scope.unfoldAll_singleton htest)
      | nonzero =>
        cases h
        exact Scope.unfold_immediate rfl rfl (immediate?_branchIf hdepth) hoperand

/-- Statements unfold in order to the code that is emitted for them, by
recursion with the case for one expression. -/
theorem unfoldAll_foldedAll (hS : S.Of m f) {labels : List String} :
    ∀ es {code}, checkAll m f labels es = .ok () →
      instructionsAll m.index? labels es = .ok code →
        S.unfoldAll (labels.map fun l => "$" ++ l) (foldedAll f es) = code.mapM (reread S.double?)
  | [], code, _, h => by
    cases h
    rfl
  | e :: es, code, hcheck, h => by
    obtain ⟨he, hes⟩ := Expr.checkAll_cons.mp hcheck
    simp only [instructionsAll, bind_eq_ok, pure_eq_ok] at h
    obtain ⟨first, hfirst, rest, hrest, rfl⟩ := h
    exact Scope.unfoldAll_cons (unfold_folded hS e he hfirst)
      (unfoldAll_foldedAll hS es hes hrest)

end

end

-- =============================================================== modules

/-- A folded expression is no declaration, so the body of a function
starts where declarations end. -/
theorem isDeclaration_folded (f : Function) (e : Expr) : isDeclaration (folded f e) = false := by
  cases e with
  | const c => cases c <;> rfl
  | load t a => cases t <;> rfl
  | store t a v => cases t <;> rfl
  | branchIf l c test => cases test <;> rfl
  | _ => rfl

/-- The declarations of slots of the given types from a number on. -/
def slotDeclarations (f : Function) (keyword : String) (first : Nat) (ts : List ValueType) :
    List Sexp :=
  ts.zipIdx.map fun p => .list [.word keyword, slot f (first + p.2), .word p.1.name]

theorem isDeclaration_slotDeclarations (f : Function) {keyword : String}
    (h : keyword = "param" ∨ keyword = "local") (first : Nat) (ts : List ValueType) :
    ∀ s ∈ slotDeclarations f keyword first ts, isDeclaration s = true := by
  intro s hs
  obtain ⟨p, -, rfl⟩ := List.mem_map.mp hs
  rcases h with rfl | rfl <;> rfl

/-- The slots declared are named by their words, in order from the first
number on. -/
theorem filterMap_slotDeclarations (f : Function) {keyword : String}
    (h : keyword = "param" ∨ keyword = "local") (first : Nat) (ts : List ValueType) :
    (slotDeclarations f keyword first ts).filterMap declared?
      = (List.range ts.length).map fun i => slotWord f (first + i) := by
  have hone : declared? ∘ (fun p : ValueType × Nat =>
      Sexp.list [.word keyword, slot f (first + p.2), .word p.1.name])
        = some ∘ fun p => slotWord f (first + p.2) := by
    funext p
    rw [Function.comp_apply, slot_eq_word]
    rcases h with rfl | rfl <;> rfl
  rw [slotDeclarations, List.filterMap_map, hone, List.filterMap_eq_map, List.range_eq_range',
    ← List.zipIdx_map_snd 0 ts, List.map_map]
  rfl

theorem isDeclaration_result (t : ValueType) : ∀ s ∈ result t, isDeclaration s = true := by
  cases t <;> decide

theorem filterMap_result (t : ValueType) : (result t).filterMap declared? = [] := by
  cases t <;> rfl

/-- A function as its declarations in front of its code. -/
theorem sexp_function_eq (f : Function) :
    (function f).sexp = .list (.word "func" :: symbol f.name
      :: ((slotDeclarations f "param" 0 f.params
          ++ (result f.result ++ slotDeclarations f "local" f.params.length f.locals))
        ++ foldedAll f f.body)) := by
  rw [sexp_function, List.append_assoc, List.append_assoc]
  simp only [slotDeclarations, Nat.zero_add]

/-- A function is read back with the words of its slots and its code.
Declarations come first and are told apart from the body by their
keywords. -/
theorem function?_sexp (f : Function) :
    function? (function f).sexp = some ⟨Text.utf8 f.name, slotWords f, foldedAll f f.body⟩ := by
  have hbody : ∀ es, (foldedAll f es).takeWhile isDeclaration = []
      ∧ (foldedAll f es).dropWhile isDeclaration = foldedAll f es := by
    intro es
    cases es with
    | nil => exact ⟨rfl, rfl⟩
    | cons e es =>
      have he := isDeclaration_folded f e
      exact ⟨List.takeWhile_cons_of_neg (by rw [he]; decide),
        List.dropWhile_cons_of_neg (by rw [he]; decide)⟩
  have hdeclarations : ∀ s ∈ slotDeclarations f "param" 0 f.params
      ++ (result f.result ++ slotDeclarations f "local" f.params.length f.locals),
      isDeclaration s = true := by
    rw [List.forall_mem_append, List.forall_mem_append]
    exact ⟨isDeclaration_slotDeclarations f (.inl rfl) _ _, isDeclaration_result _,
      isDeclaration_slotDeclarations f (.inr rfl) _ _⟩
  have hwords : (slotDeclarations f "param" 0 f.params
      ++ (result f.result ++ slotDeclarations f "local" f.params.length f.locals)).filterMap
        declared? = slotWords f := by
    rw [List.filterMap_append, List.filterMap_append, filterMap_result,
      filterMap_slotDeclarations f (.inl rfl), filterMap_slotDeclarations f (.inr rfl), slotWords,
      Function.slotCount, List.range_add, List.map_append, List.map_map]
    simp only [Nat.zero_add, List.nil_append]
    rfl
  rw [sexp_function_eq, function?, identifier?_symbol,
    List.takeWhile_append_of_pos hdeclarations, List.dropWhile_append_of_pos hdeclarations,
    (hbody f.body).1, (hbody f.body).2, List.append_nil, hwords]
  rfl

theorem import?_sexp (i : Import) : import? (importLine i).sexp = some (Text.utf8 i.name) :=
  identifier?_symbol i.name

/-- Only imports and functions count for a reader that knows no other
field. -/
theorem filterMap_fields (m : Module) {α : Type} {g : Sexp → Option α}
    (hmemory : g (memoryLine m.memory).sexp = none)
    (hsegments : ∀ s, g (segmentLine s).sexp = none)
    (hexports : ∀ e, g (exportLine e).sexp = none) :
    (fields m).filterMap g = m.imports.filterMap (fun i => g (importLine i).sexp)
      ++ m.functions.filterMap fun f => g (function f).sexp := by
  have hnosegments : (m.memory.segments.map fun s => (segmentLine s).sexp).filterMap g = [] :=
    List.filterMap_eq_nil_iff.mpr (List.forall_mem_map.mpr fun s _ => hsegments s)
  have hnoexports : (m.exports.map fun e => (exportLine e).sexp).filterMap g = [] :=
    List.filterMap_eq_nil_iff.mpr (List.forall_mem_map.mpr fun e _ => hexports e)
  rw [fields, List.filterMap_append, List.filterMap_append, List.filterMap_append,
    List.filterMap_cons_none hmemory, hnosegments, hnoexports, List.append_nil, List.append_nil,
    List.filterMap_map, List.filterMap_map]
  rfl

/-- The functions of the text of a module, in the order of the module. -/
theorem textFunctions_fields (m : Module) :
    textFunctions (fields m)
      = m.functions.map fun f => ⟨Text.utf8 f.name, slotWords f, foldedAll f f.body⟩ := by
  have himports : m.imports.filterMap (fun i => function? (importLine i).sexp) = [] :=
    List.filterMap_eq_nil_iff.mpr fun _ _ => rfl
  rw [textFunctions, filterMap_fields m rfl (fun _ => rfl) fun _ => rfl, himports,
    List.nil_append, ← List.filterMap_eq_map]
  exact List.filterMap_congr fun f _ => function?_sexp f

/-- The identifiers of the text of a module, in the order of the
indices. -/
theorem identifiers_fields (m : Module) : identifiers (fields m) = m.callables.map Text.utf8 := by
  have hfunctions : m.functions.filterMap (fun f => import? (function f).sexp) = [] := by
    refine List.filterMap_eq_nil_iff.mpr fun f _ => ?_
    rw [sexp_function_eq]
    rfl
  have himports : (fields m).filterMap import? = m.imports.map fun i => Text.utf8 i.name := by
    rw [filterMap_fields m rfl (fun _ => rfl) fun _ => rfl, hfunctions, List.append_nil,
      ← List.filterMap_eq_map]
    exact List.filterMap_congr fun i _ => import?_sexp i
  rw [identifiers, himports, textFunctions_fields, Module.callables, List.map_append,
    List.map_map, List.map_map, List.map_map]
  rfl

/-- What a module has to be like for its text to be read back: labels
are plain, and no function has two slots of one name. -/
structure Readable (m : Module) : Prop where
  labels : ∀ f ∈ m.functions, havePlainLabels f.body = true
  slots : ∀ f ∈ m.functions, f.slotNames.Nodup

/-- A function of a text and an entry of a binary have the same code,
but for the end that closes the entry. -/
def SameCode (fields : List Sexp) (t : TextFunction) (entry : Wasm.CodeEntry) : Prop :=
  ∃ code, entry.instructions = code ++ [.stop]
    ∧ ∀ double?, t.unfolded double? fields = code.mapM (reread double?)

/-- What is emitted is the text of the document. -/
theorem outcome_emit_eq_ok {m : Module} {text : String} :
    (emit m).outcome = .ok text ↔ m.validate = .ok () ∧ text = (document m).text 0 := by
  unfold emit
  cases m.validate with
  | error fault => exact ⟨nofun, fun h => nomatch h.1⟩
  | ok u =>
    constructor
    · intro h
      cases h
      exact ⟨rfl, rfl⟩
    · rintro ⟨-, rfl⟩
      rfl

/-- A module is read back from its text to the fields that were written. -/
theorem module?_document {m : Module} (h : Readable m) :
    module? ((document m).text 0) = some (fields m) := by
  rw [module?, read?_document h.labels]
  rfl

/-- The functions of the text of a module have the code of its binary. -/
theorem sameCode_fields {m : Module} (h : Readable m) {names : Bool} {b : Wasm.Binary}
    (hb : Wasm.binary m names = .ok b) :
    List.Forall₂ (SameCode (fields m)) (textFunctions (fields m)) b.codes := by
  have hcodes := (Wasm.linked_of_binary hb).codes
  have hvalid := (Wasm.binary_eq_ok.mp hb).1
  have hbodies := Module.checkBodies_eq_ok.mp (Module.validate_eq_ok.mp hvalid).2.2.2
  rw [textFunctions_fields, List.forall₂_map_left_iff]
  have hmembers := (List.forall₂_and_left m.functions b.codes).mpr ⟨fun _ hf => hf, hcodes⟩
  refine hmembers.imp ?_
  rintro f entry ⟨hf, hentry⟩
  obtain ⟨code, hcode, rfl⟩ := Wasm.functionCode_eq_ok.mp hentry
  rw [Wasm.get?_indexMap hvalid] at hcode
  refine ⟨code, rfl, fun double? => ?_⟩
  have hscope : Scope.Of
      { functions := identifiers (fields m), locals := slotWords f, double? } m f :=
    ⟨identifiers_fields m, rfl, h.slots f hf⟩
  exact unfoldAll_foldedAll hscope f.body (hbodies f hf) hcode

end CallFlow.Wat
