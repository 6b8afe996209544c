/-
Code that passes the checks becomes well-typed instructions.

The checks of a module never look at an operand stack. They give every expression a
type, and `instructions_typed` turns it into what the instructions do to the operands:
an expression leaves one operand of its type on those that were there, or none. An
expression without a value stands where a block has no operands, so that it may be a
return, behind which nothing is known of them any more.

A body that ends in a return gets one step further: control cannot come to the end of
its function. `Binary.WellTyped` says so of the typing, and `Reaches.code_ne_stop` of
every run: nothing jumps over the return, because a branch goes to the start of a loop
or behind the end of a block, and there the return is still ahead.
-/
import CallFlow.Proofs.Wasm.Meaning
import CallFlow.Proofs.Wasm.Sections

namespace CallFlow

-- ============================================================== results

/-- The operands that an expression leaves. -/
def Expr.results (e : Expr) : List ValueType :=
  [e.type].filter ValueType.isStorable

theorem Expr.results_of_void {e : Expr} (h : e.type = .void) : e.results = [] := by
  rw [results, h]
  rfl

theorem Expr.results_of_ne_void {e : Expr} (h : e.type ≠ .void) : e.results = [e.type] :=
  List.filter_cons_of_pos (ValueType.isStorable_eq_true.mpr h)

/-- Whether control cannot go on behind an expression. -/
def Expr.isReturn : Expr → Bool
  | returnValue _ => true
  | returnNone => true
  | _ => false

theorem Expr.isReturn_of_ne_void {e : Expr} (h : e.type ≠ .void) : e.isReturn = false := by
  cases e with
  | returnValue v => exact absurd rfl h
  | returnNone => exact absurd rfl h
  | _ => rfl

namespace Wasm

open CallFlow.Expr (check checkAll)

-- ========================================================== expressions

/-- What the body of a function of a module may use. -/
def bodyContext (m : Module) (f : Function) : Context where
  locals := f.params ++ f.locals
  callee? index := (callableTypes m)[index]?
  results := (FunctionType.ofTypes f.params f.result).results

/-- There is code that takes nothing and leaves the given operands, with
as many blocks around it as labels. Code that leaves none may ask for a
block without operands. -/
def TypedCode (C : Context) (labels : List String)
    (result : Except ModuleFault (List Instruction)) (left : List ValueType) (ends : Bool) : Prop :=
  ∃ code, result = .ok code ∧ ∀ below dead outer, outer.length = labels.length →
    (left = [] → below = []) →
      C.run ⟨⟨below, dead⟩, outer⟩ code = some ⟨⟨left ++ below, dead || ends⟩, outer⟩

section

variable {C : Context} {labels : List String}
  {result result' : Except ModuleFault (List Instruction)} {left left' : List ValueType}
  {ends ends' : Bool}

/-- An instruction behind code, which takes what the code leaves. -/
theorem TypedCode.snoc (h : TypedCode C labels result left ends) {i : Instruction}
    (hresult : ∀ code, result = .ok code → result' = .ok (code ++ [i])) (hleft : left ≠ [])
    (hstep : ∀ below dead outer, outer.length = labels.length → (left' = [] → below = []) →
      C.step ⟨⟨left ++ below, dead || ends⟩, outer⟩ i
        = some ⟨⟨left' ++ below, dead || ends'⟩, outer⟩) :
    TypedCode C labels result' left' ends' := by
  obtain ⟨code, hcode, hrun⟩ := h
  refine ⟨code ++ [i], hresult code hcode, ?_⟩
  intro below dead outer houter hbelow
  have hfirst := hrun below dead outer houter fun hnil => absurd hnil hleft
  rw [Context.run_append_of_eq hfirst, Context.run_singleton]
  exact hstep below dead outer houter hbelow

/-- A block around statements. It hides the operands that are below it,
and brings them back. -/
theorem TypedCode.enclose {l : String} (h : TypedCode C (l :: labels) result [] ends)
    {i : Instruction} (hi : ∀ s, C.step s i = some s.enter)
    (hresult : ∀ code, result = .ok code → result' = .ok (i :: code ++ [.stop])) :
    TypedCode C labels result' [] false := by
  obtain ⟨code, hcode, hrun⟩ := h
  refine ⟨i :: code ++ [.stop], hresult code hcode, ?_⟩
  intro below dead outer houter _
  have hinside := hrun [] false (⟨below, dead⟩ :: outer) (congrArg (· + 1) houter) fun _ => rfl
  have henter : C.run ⟨⟨below, dead⟩, outer⟩ [i]
      = some ⟨⟨[], false⟩, ⟨below, dead⟩ :: outer⟩ := by
    rw [Context.run_singleton, hi]
    rfl
  rw [← List.singleton_append, List.append_assoc, Context.run_append_of_eq henter,
    Context.run_append_of_eq hinside, Context.run_singleton, Bool.or_false]
  rfl

end

section

variable {m : Module} {f : Function} {labels : List String}

theorem step_localGet {i : Nat} {t : ValueType} (ht : f.slotType? i = some t) (s : TypeState) :
    (bodyContext m f).step s (.localGet i) = s.replace [] [t] := by
  have hlocal : (bodyContext m f).locals[i]? = some t := ht
  rw [Context.step, hlocal]
  rfl

theorem step_localSet {i : Nat} {t : ValueType} (ht : f.slotType? i = some t) (s : TypeState) :
    (bodyContext m f).step s (.localSet i) = s.replace [t] [] := by
  have hlocal : (bodyContext m f).locals[i]? = some t := ht
  rw [Context.step, hlocal]
  rfl

/-- A call takes the parameters off in reverse order and leaves the
results. -/
theorem step_call {i : Nat} {type : FunctionType} (ht : (callableTypes m)[i]? = some type)
    (s : TypeState) :
    (bodyContext m f).step s (.call i) = s.replace type.params.reverse type.results.reverse := by
  have hcallee : (bodyContext m f).callee? i = some type := ht
  rw [Context.step, hcallee]
  rfl

/-- A callable function has an index, and its type is at that index. -/
theorem exists_index_of_signature {name : String} {params : List ValueType} {result : ValueType}
    (h : m.signature? name = some (params, result)) :
    ∃ i, m.index? name = some i ∧ (callableTypes m)[i]? = some (.ofTypes params result) := by
  obtain ⟨i, hindex, hcallee⟩ := exists_callee h
  exact ⟨i, hindex, (List.getElem?_zip_eq_some.mp hcallee).2⟩

/-- A constant leaves its type, which is never the one without values. -/
theorem typed_const (c : Constant) :
    TypedCode (bodyContext m f) labels (instructions m.index? labels (.const c))
      (Expr.const c).results false := by
  refine ⟨[constantOf c], rfl, ?_⟩
  intro below dead outer _ _
  rw [Context.run_singleton, Bool.or_false]
  cases c <;> rfl

theorem typed_get {i : Nat} {t : ValueType} (ht : f.slotType? i = some t) (hvoid : t ≠ .void) :
    TypedCode (bodyContext m f) labels (instructions m.index? labels (.get i t))
      (Expr.get i t).results false := by
  refine ⟨[.localGet i], rfl, ?_⟩
  intro below dead outer _ _
  have hresults : (Expr.get i t).results = [t] := Expr.results_of_ne_void (e := .get i t) hvoid
  rw [Context.run_singleton, step_localGet ht, Bool.or_false, hresults]
  exact Context.replace_of_eq [] [t] below dead outer

/-- A return takes the result of the function, whatever is below it. -/
theorem step_ret (below : List ValueType) (dead : Bool) (outer : List Operands) :
    (bodyContext m f).step
        ⟨⟨[f.result].filter ValueType.isStorable ++ below, dead⟩, outer⟩ .ret
      = some ⟨⟨[], true⟩, outer⟩ := by
  have hresults : (bodyContext m f).results.reverse = [f.result].filter ValueType.isStorable := by
    show ([f.result].filter ValueType.isStorable).reverse = _
    cases f.result <;> rfl
  rw [Context.step, hresults, Context.replace_of_eq]
  rfl

mutual

/-- The instructions of a checked expression leave an operand of its
type, or none. The recursion is over the expression, with the labels in
scope as a parameter. Behind a return the types of operands are not
known any more, and the flag says so. -/
theorem instructions_typed (hm : m.Storable) (hf : f ∈ m.functions) {labels : List String} :
    ∀ e, check m f labels e = .ok () → e.isTidy = true →
      TypedCode (bodyContext m f) labels (instructions m.index? labels e) e.results e.isReturn
  | .const c, _, _ => typed_const c
  | .get i t, h, _ => by
    have hslot := Expr.check_get.mp h
    exact typed_get hslot (hm.slotType? hf hslot)
  | .set i v, h, htidy => by
    obtain ⟨hslot, hv⟩ := Expr.check_set.mp h
    have hvoid := hm.slotType? hf hslot
    have hvalue := instructions_typed hm hf v hv htidy
    rw [Expr.results_of_ne_void hvoid, Expr.isReturn_of_ne_void hvoid] at hvalue
    refine hvalue.snoc (i := .localSet i) (fun code hcode => ?_) (List.cons_ne_nil _ _) ?_
    · rw [instructions, hcode]
      rfl
    · intro below dead outer _ _
      rw [step_localSet hslot]
      exact Context.replace_of_eq [v.type] [] below _ outer
  | .call function args result, h, htidy => by
    obtain ⟨hsignature, hargs⟩ := Expr.check_call.mp h
    have hstorable := hm.signature? hsignature
    have htypes : ∀ e ∈ args, e.type ≠ .void := fun e he =>
      hstorable e.type (List.mem_map_of_mem he)
    obtain ⟨i, hindex, htype⟩ := exists_index_of_signature hsignature
    obtain ⟨code, hcode, hrun⟩ := argInstructions_typed hm hf args hargs htidy htypes
    refine ⟨code ++ [.call i], ?_, ?_⟩
    · rw [instructions, hcode, hindex]
      rfl
    · intro below dead outer houter _
      have hparams : (FunctionType.ofTypes (args.map Expr.type) result).params
          = args.map Expr.type :=
        List.filter_eq_self.mpr fun t ht => ValueType.isStorable_eq_true.mpr (hstorable t ht)
      have hresults : (FunctionType.ofTypes (args.map Expr.type) result).results.reverse
          = (Expr.call function args result).results := by
        show ([result].filter ValueType.isStorable).reverse = [result].filter ValueType.isStorable
        cases result <;> rfl
      have hends : (Expr.call function args result).isReturn = false := rfl
      rw [Context.run_append_of_eq (hrun below dead outer houter), Context.run_singleton,
        step_call htype, hparams, hresults, hends, Bool.or_false]
      exact Context.replace_of_eq _ _ below dead outer
  | .load t a, h, htidy => by
    obtain ⟨ha, haddress, haccess⟩ := Expr.check_load.mp h
    have hvalue := instructions_typed hm hf a ha htidy
    have hvoid : a.type ≠ .void := by
      rw [haddress]
      nofun
    rw [Expr.results_of_ne_void hvoid, Expr.isReturn_of_ne_void hvoid, haddress] at hvalue
    refine hvalue.snoc (i := loadOf t) (fun code hcode => ?_) (List.cons_ne_nil _ _) ?_
    · rw [instructions, hcode]
      rfl
    · intro below dead outer _ _
      rcases haccess with rfl | rfl
      · exact Context.replace_of_eq [.i32] [.i32] below _ outer
      · exact Context.replace_of_eq [.i32] [.f64] below _ outer
  | .store t a v, h, htidy => by
    obtain ⟨ha, haddress, haccess, hv, rfl⟩ := Expr.check_store.mp h
    obtain ⟨htidya, htidyv⟩ := Bool.and_eq_true_iff.mp htidy
    have hvoida : a.type ≠ .void := by
      rw [haddress]
      nofun
    have hvoidv : v.type ≠ .void := by
      rcases haccess with hv | hv <;> rw [hv] <;> nofun
    obtain ⟨code, hcode, hrun⟩ := instructions_typed hm hf a ha htidya
    obtain ⟨code', hcode', hrun'⟩ := instructions_typed hm hf v hv htidyv
    rw [Expr.results_of_ne_void hvoida, Expr.isReturn_of_ne_void hvoida, haddress] at hrun
    rw [Expr.results_of_ne_void hvoidv, Expr.isReturn_of_ne_void hvoidv] at hrun'
    refine ⟨code ++ code' ++ [storeOf v.type], ?_, ?_⟩
    · rw [instructions, hcode, hcode']
      rfl
    · intro below dead outer houter _
      -- the address waits below the value
      have hfirst := hrun below dead outer houter nofun
      have hsecond := hrun' (.i32 :: below) (dead || false) outer houter nofun
      rw [List.append_assoc, Context.run_append_of_eq hfirst]
      have hends : (Expr.store v.type a v).isReturn = false := rfl
      rw [List.singleton_append, Context.run_append_of_eq hsecond, Context.run_singleton, hends,
        Bool.or_false, Bool.or_false]
      rcases haccess with htype | htype <;> rw [htype]
      · exact Context.replace_of_eq [.i32, .i32] [] below dead outer
      · exact Context.replace_of_eq [.f64, .i32] [] below dead outer
  | .returnValue v, h, htidy => by
    obtain ⟨hv, htype⟩ := Expr.check_returnValue.mp h
    obtain ⟨code, hcode, hrun⟩ := instructions_typed hm hf v hv htidy
    refine ⟨code ++ [.ret], ?_, ?_⟩
    · rw [instructions, hcode]
      rfl
    · intro below dead outer houter hbelow
      obtain rfl := hbelow rfl
      have hends : (Expr.returnValue v).isReturn = true := rfl
      rw [Context.run_append_of_eq (hrun [] dead outer houter fun _ => rfl),
        Context.run_singleton, Expr.results, htype, step_ret, hends, Bool.or_true]
      rfl
  | .returnNone, h, _ => by
    have hvoid := Expr.check_returnNone.mp h
    refine ⟨[.ret], rfl, ?_⟩
    intro below dead outer _ hbelow
    obtain rfl := hbelow rfl
    have hstep := step_ret (m := m) (f := f) [] dead outer
    have hends : Expr.returnNone.isReturn = true := rfl
    rw [hvoid] at hstep
    rw [Context.run_singleton, hends, Bool.or_true]
    exact hstep
  | .block l body, h, htidy =>
    (statements_typed hm hf body h htidy).enclose (fun _ => rfl) fun code hcode => by
      rw [instructions, hcode]
      rfl
  | .loop l body, h, htidy =>
    (statements_typed hm hf body h htidy).enclose (fun _ => rfl) fun code hcode => by
      rw [instructions, hcode]
      rfl
  | .branchIf l c test, h, htidy => by
    obtain ⟨hl, hc, htype⟩ := Expr.check_branchIf.mp h
    obtain ⟨depth, hdepth⟩ := exists_depth hl
    have hlt : depth < labels.length := (List.findIdx?_eq_some_iff_findIdx_eq.mp hdepth).1
    obtain ⟨code, hcode, hrun⟩ := instructions_typed hm hf c hc htidy
    have hvoid : c.type ≠ .void := by
      rw [htype]
      nofun
    rw [Expr.results_of_ne_void hvoid, Expr.isReturn_of_ne_void hvoid, htype] at hrun
    refine ⟨code ++ testCode depth test, ?_, ?_⟩
    · rw [instructions, hdepth, hcode]
      cases test <;> rfl
    · intro below dead outer houter _
      have hbranch : (bodyContext m f).run ⟨⟨.i32 :: below, dead || false⟩, outer⟩
          [.branchIf depth] = some ⟨⟨below, dead || false⟩, outer⟩ := by
        rw [Context.run_singleton, Context.step, if_pos (houter ▸ hlt)]
        exact Context.replace_of_eq [.i32] [] below _ outer
      rw [Context.run_append_of_eq (hrun below dead outer houter nofun)]
      cases test with
      | zero => exact hbranch
      | nonzero => exact hbranch

/-- The instructions of checked arguments leave their types, that of the
last on top. They are taken off in the opposite order by the call. -/
theorem argInstructions_typed (hm : m.Storable) (hf : f ∈ m.functions) {labels : List String} :
    ∀ es, checkAll m f labels es = .ok () → Expr.areTidyArgs es = true →
      (∀ e ∈ es, e.type ≠ .void) →
      ∃ code, instructionsAll m.index? labels es = .ok code
        ∧ ∀ below dead outer, outer.length = labels.length →
          (bodyContext m f).run ⟨⟨below, dead⟩, outer⟩ code
            = some ⟨⟨(es.map Expr.type).reverse ++ below, dead⟩, outer⟩
  | [], _, _, _ => ⟨[], rfl, fun _ _ _ _ => rfl⟩
  | e :: es, h, htidy, htypes => by
    obtain ⟨he, hes⟩ := Expr.checkAll_cons.mp h
    obtain ⟨htidye, htidyes⟩ := Bool.and_eq_true_iff.mp htidy
    obtain ⟨htype, htypes⟩ := List.forall_mem_cons.mp htypes
    obtain ⟨code, hcode, hrun⟩ := instructions_typed hm hf e he htidye
    obtain ⟨rest, hrest, hrun'⟩ := argInstructions_typed hm hf es hes htidyes htypes
    rw [Expr.results_of_ne_void htype, Expr.isReturn_of_ne_void htype] at hrun
    refine ⟨code ++ rest, ?_, ?_⟩
    · rw [instructionsAll, hcode, hrest]
      rfl
    · intro below dead outer houter
      have hfirst := hrun below dead outer houter nofun
      rw [Bool.or_false, List.singleton_append] at hfirst
      rw [Context.run_append_of_eq hfirst, hrun' (e.type :: below) dead outer houter,
        List.map_cons, List.reverse_cons, List.append_assoc, List.singleton_append]

/-- The instructions of checked statements leave no operands, and
control cannot go on behind them if one of them is a return. A return
may stand anywhere among them; what comes behind it is typed all the
same. -/
theorem statements_typed (hm : m.Storable) (hf : f ∈ m.functions) {labels : List String} :
    ∀ es, checkAll m f labels es = .ok () → Expr.areTidy es = true →
      TypedCode (bodyContext m f) labels (instructionsAll m.index? labels es) []
        (es.any Expr.isReturn)
  | [], _, _ => by
    refine ⟨[], rfl, ?_⟩
    intro below dead outer _ _
    rw [List.any_nil, Bool.or_false]
    rfl
  | e :: es, h, htidy => by
    obtain ⟨he, hes⟩ := Expr.checkAll_cons.mp h
    obtain ⟨htidye, htidyes⟩ := Bool.and_eq_true_iff.mp htidy
    obtain ⟨hvoid, htidye⟩ := Bool.and_eq_true_iff.mp htidye
    obtain ⟨code, hcode, hrun⟩ := instructions_typed hm hf e he htidye
    obtain ⟨rest, hrest, hrun'⟩ := statements_typed hm hf es hes htidyes
    rw [Expr.results_of_void (of_decide_eq_true hvoid)] at hrun
    refine ⟨code ++ rest, ?_, ?_⟩
    · rw [instructionsAll, hcode, hrest]
      rfl
    · intro below dead outer houter hbelow
      obtain rfl := hbelow rfl
      rw [Context.run_append_of_eq (hrun [] dead outer houter fun _ => rfl), List.any_cons,
        ← Bool.or_assoc]
      exact hrun' [] (dead || e.isReturn) outer houter fun _ => rfl

end

-- ============================================================ functions

/-- The context that a binary gives to a body is that of the function,
whose slots all hold values. -/
theorem Linked.context_eq {b : Binary} (h : Linked m b) (hm : m.Storable) (hf : f ∈ m.functions)
    (code : List Instruction) :
    b.context (.ofTypes f.params f.result)
        { locals := localRuns f.locals, instructions := code } = bodyContext m f := by
  have hstorable := fun t ht => ValueType.isStorable_eq_true.mpr (hm.functions f hf t ht)
  have hparams : f.params.filter ValueType.isStorable = f.params :=
    List.filter_eq_self.mpr fun t ht => hstorable t (List.mem_append_left _ ht)
  have hlocals : f.locals.filter ValueType.isStorable = f.locals :=
    List.filter_eq_self.mpr fun t ht => hstorable t (List.mem_append_right _ ht)
  unfold Binary.context bodyContext
  congr 1
  · rw [expandRuns_localRuns, hlocals, FunctionType.ofTypes, hparams]
  · funext index
    exact h.callee?_eq index

end

/-- The last statement of a body is a return with a value. -/
def EndsInReturn (body : List Expr) : Prop :=
  ∃ es v, body = es ++ [.returnValue v]

theorem EndsInReturn.any_isReturn {body : List Expr} (h : EndsInReturn body) :
    body.any Expr.isReturn = true := by
  obtain ⟨es, v, rfl⟩ := h
  rw [List.any_append]
  exact Bool.or_true _

variable {m : Module}

/-- Code of statements in order is code of the first, followed by that
of the others. -/
theorem instructionsAll_append {index? : String → Option Nat} {labels : List String}
    {es es' : List Expr} {code : List Instruction} :
    instructionsAll index? labels (es ++ es') = .ok code ↔
      ∃ first rest, instructionsAll index? labels es = .ok first
        ∧ instructionsAll index? labels es' = .ok rest ∧ code = first ++ rest := by
  induction es generalizing code with
  | nil =>
    constructor
    · intro h
      exact ⟨[], code, rfl, h, rfl⟩
    · intro h
      obtain ⟨_, rest, hfirst, hrest, rfl⟩ := h
      cases hfirst
      exact hrest
  | cons e es ih =>
    simp only [List.cons_append, instructionsAll, bind_eq_ok, pure_eq_ok, ih]
    constructor
    · intro h
      obtain ⟨code₁, h₁, _, ⟨first, rest, hfirst, hrest, rfl⟩, rfl⟩ := h
      exact ⟨code₁ ++ first, rest, ⟨code₁, h₁, first, hfirst, rfl⟩, hrest,
        (List.append_assoc _ _ _).symm⟩
    · intro h
      obtain ⟨_, rest, ⟨code₁, h₁, first, hfirst, rfl⟩, hrest, rfl⟩ := h
      exact ⟨code₁, h₁, first ++ rest, ⟨first, rest, hfirst, hrest, rfl⟩,
        (List.append_assoc _ _ _).symm⟩

/-- The code of a body that ends in a return does so as well. -/
theorem EndsInReturn.instructions {body : List Expr} (h : EndsInReturn body)
    {index? : String → Option Nat} {labels : List String} {code : List Instruction}
    (hcode : instructionsAll index? labels body = .ok code) : ∃ pre, code = pre ++ [.ret] := by
  obtain ⟨es, v, rfl⟩ := h
  obtain ⟨first, _, -, hrest, rfl⟩ := instructionsAll_append.mp hcode
  simp only [instructionsAll, Wasm.instructions, bind_eq_ok, pure_eq_ok] at hrest
  obtain ⟨_, ⟨value, -, rfl⟩, rest, hnil, rfl⟩ := hrest
  cases hnil
  refine ⟨first ++ value, ?_⟩
  rw [List.append_nil, List.append_assoc]

/-- A binary is well typed if its module has only slots that hold
values, statements that leave none, and bodies that end in a return. -/
theorem wellTyped_of_binary {names : Bool} {b : Binary} (h : binary m names = .ok b)
    (hm : m.Storable) (htidy : ∀ f ∈ m.functions, Expr.areTidy f.body = true)
    (hreturn : ∀ f ∈ m.functions, EndsInReturn f.body) : b.WellTyped := by
  have hlinked := linked_of_binary h
  have hvalid := (binary_eq_ok.mp h).1
  have hbodies := Module.checkBodies_eq_ok.mp (Module.validate_eq_ok.mp hvalid).2.2.2
  refine ⟨?_, ?_⟩
  · rw [← hlinked.codes.length_eq, hlinked.functions.length_eq]
  · intro i code hcode
    obtain ⟨hi, -⟩ := List.getElem?_eq_some_iff.mp hcode
    have hi' : i < m.functions.length := hlinked.codes.length_eq ▸ hi
    have hf : m.functions[i] ∈ m.functions := List.getElem_mem hi'
    obtain ⟨_, hcode', hentry, hcallee⟩ := hlinked.exists_code (List.getElem?_eq_getElem hi')
    obtain rfl := Option.some.inj (hcode.symm.trans hcode')
    obtain ⟨body, hbody, rfl⟩ := functionCode_eq_ok.mp hentry
    rw [get?_indexMap hvalid] at hbody
    refine ⟨_, hcallee, ?_⟩
    rw [hlinked.context_eq hm hf, Context.accepts_append_stop]
    obtain ⟨_, hbody', hrun⟩ := statements_typed hm hf _ (hbodies _ hf) (htidy _ hf)
    obtain rfl := Except.ok.inj (hbody.symm.trans hbody')
    have hend := hrun [] false [] rfl fun _ => rfl
    rw [(hreturn _ hf).any_isReturn] at hend
    exact hend

-- ================================================================= runs

/-- The return that ends a body is still ahead, or there is no code left
at all. -/
def ReturnAhead (code : List Instruction) : Prop :=
  code = [] ∨ [.ret, .stop] <:+ code

/-- Where a return is ahead, the code does not just end. -/
theorem ReturnAhead.ne_stop {code : List Instruction} (h : ReturnAhead code) : code ≠ [.stop] := by
  rintro rfl
  rcases h with h | h
  · cases h
  · have hlength := h.length_le
    simp at hlength

/-- Only the return itself comes between the code that has it ahead and
the end. -/
theorem ReturnAhead.tail {i : Instruction} {rest : List Instruction}
    (h : ReturnAhead (i :: rest)) (hi : i ≠ .ret) : ReturnAhead rest := by
  rcases h with h | h
  · cases h
  · rcases List.suffix_cons_iff.mp h with heq | hsuffix
    · exact absurd (List.cons.inj heq).1.symm hi
    · exact .inr hsuffix

/-- Behind the end of a block the return is ahead, if it was at the
start of the code or there was only the end of the function. A branch to
the label of a block goes to such a place. -/
theorem returnAhead_afterStop {code : List Instruction} (h : code = [.stop] ∨ ReturnAhead code)
    (depth : Nat) : ReturnAhead (afterStop depth code) := by
  induction code generalizing depth with
  | nil => exact .inl (by cases depth <;> rfl)
  | cons i rest ih =>
    have hrest : rest = [.stop] ∨ ReturnAhead rest := by
      by_cases hi : i = .ret
      · subst hi
        rcases h with h | h
        · cases h
        · rcases h with h | h
          · cases h
          · rcases List.suffix_cons_iff.mp h with heq | hsuffix
            · exact .inl (List.cons.inj heq).2.symm
            · exact .inr (.inr hsuffix)
      · rcases h with h | h
        · exact .inr (.inl (List.cons.inj h).2)
        · exact .inr (h.tail hi)
    cases i with
    | block => exact ih hrest (depth + 1)
    | loop => exact ih hrest (depth + 1)
    | stop =>
      cases depth with
      | succ depth => exact ih hrest depth
      | zero =>
        show ReturnAhead rest
        rcases h with h | h
        · exact .inl (List.cons.inj h).2
        · exact h.tail nofun
    | _ => cases depth <;> exact ih hrest _

section Runs

variable {σ : Type} {M : Machine σ}

/-- What a step does to the place in the code: it goes on to the next
instruction, and may enter a block or a loop, or it goes to where a
frame says. A return is no step. -/
theorem Machine.step_code {c c' : Config σ} (h : M.step c = .ok c') :
    ∃ i rest, c.code = i :: rest ∧ i ≠ .ret
      ∧ ((c'.code = rest ∧ ∀ frame ∈ c'.frames, frame ∈ c.frames
            ∨ frame.target = afterStop 0 rest ∨ frame.target = c.code)
        ∨ ((∃ frame ∈ c.frames, c'.code = frame.target)
          ∧ ∀ frame ∈ c'.frames, frame ∈ c.frames)) := by
  obtain ⟨code, frames, stack, s⟩ := c
  cases code with
  | nil => cases h
  | cons i rest =>
    refine ⟨i, rest, rfl, ?_, ?_⟩
    · rintro rfl
      cases h
    · change M.perform _ rest i = .ok c' at h
      cases i with
      | block =>
        cases h
        refine .inl ⟨rfl, fun frame hframe => ?_⟩
        rcases List.mem_cons.mp hframe with rfl | hframe
        · exact .inr (.inl rfl)
        · exact .inl hframe
      | loop =>
        cases h
        refine .inl ⟨rfl, fun frame hframe => ?_⟩
        rcases List.mem_cons.mp hframe with rfl | hframe
        · exact .inr (.inr rfl)
        · exact .inl hframe
      | stop =>
        cases frames with
        | nil => cases h
        | cons frame frames =>
          cases h
          exact .inl ⟨rfl, fun frame' hframe => .inl (List.mem_cons_of_mem frame hframe)⟩
      | branchIf depth =>
        simp only [perform] at h
        split at h
        · split at h
          · cases h
            exact .inl ⟨rfl, fun frame hframe => .inl hframe⟩
          · simp only [branch] at h
            split at h
            · next target htarget =>
              cases h
              exact .inr ⟨⟨target, List.mem_of_getElem? htarget, rfl⟩,
                fun frame hframe => List.mem_of_mem_drop hframe⟩
            · cases h
        · cases h
      | _ =>
        -- The others change the slots, the stack and the world only.
        simp only [perform, call, Config.load, Config.store] at h
        repeat' split at h
        all_goals cases h
        all_goals exact .inl ⟨rfl, fun frame hframe => .inl hframe⟩

/-- The return is ahead of the machine, and of every place that it may
branch to. -/
structure Config.Ahead (c : Config σ) : Prop where
  code : ReturnAhead c.code
  frames : ∀ frame ∈ c.frames, ReturnAhead frame.target

/-- One step of the machine keeps a return ahead, in the code and in all
frames. -/
theorem Config.Ahead.step {c c' : Config σ} (h : c.Ahead) (hstep : M.step c = .ok c') :
    c'.Ahead := by
  obtain ⟨i, rest, hcode, hi, hcases⟩ := Machine.step_code hstep
  have hahead := h.code
  rw [hcode] at hahead
  have hrest : ReturnAhead rest := hahead.tail hi
  rcases hcases with ⟨hc', hframes⟩ | ⟨⟨frame, hframe, hc'⟩, hframes⟩
  · refine ⟨hc' ▸ hrest, fun frame hframe => ?_⟩
    rcases hframes frame hframe with hold | htarget | htarget
    · exact h.frames frame hold
    · rw [htarget]
      exact returnAhead_afterStop (.inr hrest) 0
    · rw [htarget]
      exact h.code
  · exact ⟨hc' ▸ h.frames frame hframe, fun frame' hframe' => h.frames frame' (hframes _ hframe')⟩

/-- No run of a body that ends in a return comes to the end of its
function. -/
theorem Machine.Reaches.code_ne_stop {n : Nat} {c c' : Config σ} (h : M.Reaches n c c')
    (hc : c.Ahead) : c'.code ≠ [.stop] := by
  induction h with
  | refl => exact hc.code.ne_stop
  | step first _ ih => exact ih (hc.step first)

/-- The start of the code of a body that ends in a return. -/
theorem ahead_start {indices : Dictionary String Nat} {f : Function} {entry : CodeEntry}
    (hreturn : EndsInReturn f.body) (h : functionCode indices f = .ok entry)
    (s : State (List Constant) σ) :
    (start entry.instructions s).Ahead := by
  obtain ⟨code, hcode, rfl⟩ := functionCode_eq_ok.mp h
  obtain ⟨pre, rfl⟩ := hreturn.instructions hcode
  refine ⟨.inr ⟨pre, ?_⟩, List.forall_mem_nil _⟩
  exact (List.append_assoc pre [.ret] [.stop]).symm

end Runs

end Wasm

end CallFlow
