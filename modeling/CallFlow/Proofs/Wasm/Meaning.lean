/-
Encoding preserves meaning: the instructions of a function do what its code does.

The instructions of every expression that passes the checks exist, enter as many
blocks as they leave, and emulate the evaluation (`eval_encoded`, by induction over
the code). For a whole body this leaves nothing on the stack and no branch on its
way, so the machine ends as the evaluation does.

One thing is asked of the code that the checks do not ask: that a statement leaves
no value. What a statement left would stay on the stack to the end of its block.
-/
import CallFlow.Proofs.Wasm.Emulation
import CallFlow.Proofs.Wasm.Tables

namespace CallFlow

-- ========================================================== statements

namespace Expr

mutual

/-- Whether no statement inside an expression leaves a value. -/
def isTidy : Expr → Bool
  | set _ v => v.isTidy
  | call _ args _ => areTidyArgs args
  | load _ a => a.isTidy
  | store _ a v => a.isTidy && v.isTidy
  | returnValue v => v.isTidy
  | block _ body => areTidy body
  | loop _ body => areTidy body
  | branchIf _ c _ => c.isTidy
  | _ => true

/-- Whether no statement inside arguments leaves a value. -/
def areTidyArgs : List Expr → Bool
  | [] => true
  | e :: es => e.isTidy && areTidyArgs es

/-- Whether statements, and the statements inside them, leave no value. -/
def areTidy : List Expr → Bool
  | [] => true
  | e :: es => e.type = .void && e.isTidy && areTidy es

end

end Expr

namespace Wasm

variable {σ β : Type}

-- =============================================================== calls

/-- The lookup of a key finds the entry at the first place of the key. -/
theorem exists_findIdx?_of_lookup {l : List (String × β)} {key : String} {b : β}
    (h : l.lookup key = some b) :
    ∃ i, (l.map Prod.fst).findIdx? (fun k => k == key) = some i ∧ l[i]? = some (key, b) := by
  induction l with
  | nil => cases h
  | cons entry l ih =>
    obtain ⟨k, b'⟩ := entry
    rw [List.map_cons, List.findIdx?_cons]
    by_cases hk : k = key
    · subst hk
      rw [List.lookup_cons_self] at h
      cases h
      exact ⟨0, if_pos (beq_self_eq_true k), rfl⟩
    · have hne : (key == k) = false := beq_eq_false_iff_ne.mpr (Ne.symm hk)
      rw [List.lookup_cons, hne] at h
      obtain ⟨i, hi, hget⟩ := ih h
      refine ⟨i + 1, ?_, hget⟩
      rw [if_neg (fun h' => hk (beq_iff_eq.mp h')), hi]
      rfl

/-- The types by index are those of the signatures, in the same order. -/
theorem callableTypes_eq_signatures (m : Module) :
    callableTypes m = m.signatures.map fun s => .ofTypes s.2.1 s.2.2 := by
  unfold callableTypes Module.signatures
  rw [List.map_append, List.map_map, List.map_map]
  rfl

/-- A callable function has an index, and the machine finds it there
with its type. -/
theorem exists_callee {m : Module} {name : String} {params : List ValueType} {result : ValueType}
    (h : m.signature? name = some (params, result)) :
    ∃ i, m.index? name = some i ∧ (callees m)[i]? = some (name, .ofTypes params result) := by
  rw [Module.signature?_eq_lookup] at h
  obtain ⟨i, hi, hget⟩ := exists_findIdx?_of_lookup h
  refine ⟨i, ?_, ?_⟩
  · rw [m.index?_eq, m.callables_eq_signatures, hi]
  · unfold callees
    rw [List.getElem?_zip_eq_some, m.callables_eq_signatures, callableTypes_eq_signatures,
      List.getElem?_map, List.getElem?_map, hget]
    exact ⟨rfl, rfl⟩

theorem FunctionType.result_ofTypes (params : List ValueType) (result : ValueType) :
    (FunctionType.ofTypes params result).result = result := by
  cases result <;> rfl

/-- The machine for a function of a module. -/
def machine (m : Module) (f : Function) (oracle : Oracle σ) : Machine σ where
  oracle
  callees := callees m
  type := .ofTypes f.params f.result

/-- A label in scope has a depth. -/
theorem exists_depth {labels : List String} {l : String} (h : l ∈ labels) :
    ∃ depth, labels.findIdx? (fun label => label == l) = some depth := by
  have hsome : (labels.findIdx? fun label => label == l).isSome = true := by
    rw [List.findIdx?_isSome, List.any_eq_true]
    exact ⟨l, h, beq_self_eq_true l⟩
  exact Option.isSome_iff_exists.mp hsome

-- ========================================================== expressions

/-- There is code for a step, and the machine follows the step with it. -/
def Encoded (M : Machine σ) (f : Function) (fuel : Nat) (labels : List String)
    (result : Except ModuleFault (List Instruction)) {α : Type} (x : Eval (List Constant) σ α)
    (left : α → List Constant) : Prop :=
  ∃ code, result = .ok code ∧ Balanced code ∧ Emulates M f fuel labels [] code x left

/-- What is done with the value of a step comes behind the code of the
step. -/
theorem Encoded.append {M : Machine σ} {f : Function} {fuel : Nat} {labels : List String}
    {result result' : Except ModuleFault (List Instruction)} {α β : Type}
    {x : Eval (List Constant) σ α} {k : α → Eval (List Constant) σ β} {P : α → Prop}
    {left : α → List Constant} {left' : β → List Constant}
    (h : Encoded M f fuel labels result x left) (hsafe : Safe f labels P x)
    (code' : List Instruction) (hbalanced' : Balanced code')
    (hresult : ∀ code, result = .ok code → result' = .ok (code ++ code'))
    (hk : ∀ a, P a → Emulates M f fuel labels (left a) code' (k a) left') :
    Encoded M f fuel labels result' (x >>= k) left' := by
  obtain ⟨code, hcode, hbalanced, hemulates⟩ := h
  exact ⟨code ++ code', hresult code hcode, hbalanced.append hbalanced', hemulates.bind hsafe hk⟩

open CallFlow.Expr (check checkAll eval evalArgs evalAll eval_safe evalArgs_safe evalAll_safe)

variable (oracle : Oracle σ) (fuel : Nat) {m : Module} {f : Function}

mutual

/-- A checked expression has instructions that do what it does, and
leave what it leaves on the stack. The recursion is over the expression.
Operands are left on the stack in the order in which the instruction
behind them takes them off. -/
theorem eval_encoded (hm : m.Storable) (hf : f ∈ m.functions) {labels : List String} :
    ∀ e, check m f labels e = .ok () → e.isTidy = true →
      Encoded (machine m f oracle) f fuel labels (instructions m.index? labels e)
        (eval oracle fuel e) Option.toList
  | .const c, _, _ => ⟨_, rfl, balanced_constantOf c, emulates_const c⟩
  | .get i t, h, _ => ⟨_, rfl, fun _ _ => rfl, emulates_localGet (Expr.check_get.mp h)⟩
  | .set i v, h, htidy => by
    obtain ⟨hslot, hv⟩ := Expr.check_set.mp h
    refine (eval_encoded hm hf v hv htidy).append (eval_safe oracle fuel hm hf v hv)
      [.localSet i] (fun _ _ => rfl) (fun code hcode => ?_) fun o ho => ?_
    · rw [instructions, hcode]
      rfl
    · rw [← ho] at hslot
      obtain ⟨c, rfl⟩ := exists_of_valueType_ne_void (hm.slotType? hf hslot)
      exact emulates_localSet hslot
  | .call function args result, h, htidy => by
    obtain ⟨hsignature, hargs⟩ := Expr.check_call.mp h
    have hstorable := hm.signature? hsignature
    have htypes : ∀ e ∈ args, e.type ≠ .void := fun e he =>
      hstorable e.type (List.mem_map_of_mem he)
    obtain ⟨i, hindex, hcallee⟩ := exists_callee hsignature
    refine (evalArgs_encoded hm hf args hargs htidy htypes).append
      (evalArgs_safe oracle fuel hm hf args hargs htypes) [.call i] (fun _ _ => rfl)
      (fun code hcode => ?_) fun cs hcs => ?_
    · rw [instructions, hcode, hindex]
      rfl
    · have hlength : cs.length
          = (FunctionType.ofTypes (args.map Expr.type) result).params.length := by
        unfold FunctionType.ofTypes
        rw [List.filter_eq_self.mpr fun t ht => ValueType.isStorable_eq_true.mpr (hstorable t ht),
          ← hcs, List.length_map]
      exact emulates_call hcallee hlength (FunctionType.result_ofTypes _ result)
  | .load t a, h, htidy => by
    obtain ⟨ha, haddress, haccess⟩ := Expr.check_load.mp h
    refine (eval_encoded hm hf a ha htidy).append (eval_safe oracle fuel hm hf a ha)
      [loadOf t] (balanced_loadOf t) (fun code hcode => ?_) fun o ho => ?_
    · rw [instructions, hcode]
      rfl
    · obtain ⟨address, rfl⟩ := exists_of_valueType_i32 (ho.trans haddress)
      exact emulates_load haccess address
  | .store t a v, h, htidy => by
    obtain ⟨ha, haddress, haccess, hv, rfl⟩ := Expr.check_store.mp h
    obtain ⟨htidya, htidyv⟩ := Bool.and_eq_true_iff.mp htidy
    obtain ⟨code', hcode', hbalanced', hemulates'⟩ := eval_encoded hm hf v hv htidyv
    refine (eval_encoded hm hf a ha htidya).append (eval_safe oracle fuel hm hf a ha)
      _ (hbalanced'.append (balanced_storeOf v.type)) (fun code hcode => ?_) fun o ho => ?_
    · rw [instructions, hcode, hcode', ← List.append_assoc]
      rfl
    · obtain ⟨address, rfl⟩ := exists_of_valueType_i32 (ho.trans haddress)
      -- the address waits on the stack while the value is computed
      have hvalue := hemulates'.above [.i32 address]
      refine hvalue.bind (eval_safe oracle fuel hm hf v hv) fun o' ho' => ?_
      rw [← ho'] at haccess ⊢
      cases o' with
      | none => rcases haccess with hnone | hnone <;> cases hnone
      | some c => exact emulates_store haccess address
  | .returnValue v, h, htidy => by
    obtain ⟨hv, htype⟩ := Expr.check_returnValue.mp h
    refine (eval_encoded hm hf v hv htidy).append (eval_safe oracle fuel hm hf v hv)
      [.ret] (fun _ _ => rfl) (fun code hcode => ?_) fun o ho => emulates_ret rfl (ho.trans htype) _
    rw [instructions, hcode]
    rfl
  | .returnNone, h, _ => by
    have hvoid : valueType none = f.result := (Expr.check_returnNone.mp h).symm
    exact ⟨[.ret], rfl, fun _ _ => rfl, emulates_ret rfl hvoid _⟩
  | .block l body, h, htidy => by
    obtain ⟨code, hcode, hbalanced, hemulates⟩ := evalAll_encoded hm hf body h htidy
    refine ⟨.block :: code ++ [.stop], ?_, hbalanced.block, ?_⟩
    · rw [instructions, hcode]
      rfl
    · exact (emulates_block hbalanced hemulates).map fun _ => rfl
  | .loop l body, h, htidy => by
    obtain ⟨code, hcode, hbalanced, hemulates⟩ := evalAll_encoded hm hf body h htidy
    refine ⟨.loop :: code ++ [.stop], ?_, hbalanced.loop, ?_⟩
    · rw [instructions, hcode]
      rfl
    · exact (emulates_loop (evalAll_safe oracle fuel hm hf body h) hemulates (Nat.le_refl fuel)).map
        fun _ => rfl
  | .branchIf l c test, h, htidy => by
    obtain ⟨hl, hc, htype⟩ := Expr.check_branchIf.mp h
    obtain ⟨depth, hdepth⟩ := exists_depth hl
    refine (eval_encoded hm hf c hc htidy).append (eval_safe oracle fuel hm hf c hc)
      _ (balanced_testCode depth test) (fun code hcode => ?_) fun o ho => ?_
    · rw [instructions, hdepth, hcode]
      cases test <;> rfl
    · obtain ⟨v, rfl⟩ := exists_of_valueType_i32 (ho.trans htype)
      exact emulates_testCode hdepth v test

/-- Checked arguments have instructions that leave their values on the
stack, the last on top. -/
theorem evalArgs_encoded (hm : m.Storable) (hf : f ∈ m.functions) {labels : List String} :
    ∀ es, checkAll m f labels es = .ok () → Expr.areTidyArgs es = true →
      (∀ e ∈ es, e.type ≠ .void) →
      Encoded (machine m f oracle) f fuel labels (instructionsAll m.index? labels es)
        (evalArgs oracle fuel es) List.reverse
  | [], _, _, _ => ⟨[], rfl, fun _ _ => rfl, .pure rfl⟩
  | e :: es, h, htidy, htypes => by
    obtain ⟨he, hes⟩ := Expr.checkAll_cons.mp h
    obtain ⟨htidye, htidyes⟩ := Bool.and_eq_true_iff.mp htidy
    obtain ⟨htype, htypes⟩ := List.forall_mem_cons.mp htypes
    obtain ⟨rest, hrest, hbalanced, hemulates⟩ := evalArgs_encoded hm hf es hes htidyes htypes
    refine (eval_encoded hm hf e he htidye).append (eval_safe oracle fuel hm hf e he) rest
      hbalanced (fun code hcode => ?_) fun o ho => ?_
    · rw [instructionsAll, hcode, hrest]
      rfl
    · obtain ⟨c, rfl⟩ := exists_of_valueType_ne_void (ho ▸ htype)
      exact (hemulates.above [c]).map fun cs => List.reverse_cons

/-- Checked statements have instructions that leave the stack as it was. -/
theorem evalAll_encoded (hm : m.Storable) (hf : f ∈ m.functions) {labels : List String} :
    ∀ es, checkAll m f labels es = .ok () → Expr.areTidy es = true →
      Encoded (machine m f oracle) f fuel labels (instructionsAll m.index? labels es)
        (evalAll oracle fuel es) fun _ => []
  | [], _, _ => ⟨[], rfl, fun _ _ => rfl, .pure rfl⟩
  | e :: es, h, htidy => by
    obtain ⟨he, hes⟩ := Expr.checkAll_cons.mp h
    obtain ⟨htidye, htidyes⟩ := Bool.and_eq_true_iff.mp htidy
    obtain ⟨hvoid, htidye⟩ := Bool.and_eq_true_iff.mp htidye
    obtain ⟨rest, hrest, hbalanced, hemulates⟩ := evalAll_encoded hm hf es hes htidyes
    refine (eval_encoded hm hf e he htidye).append (eval_safe oracle fuel hm hf e he) rest
      hbalanced (fun code hcode => ?_) fun o ho => ?_
    · rw [instructionsAll, hcode, hrest]
      rfl
    · obtain rfl := eq_none_of_valueType_void (ho.trans (of_decide_eq_true hvoid))
      exact hemulates

end

-- =========================================================== functions

/-- The machine at the start of a function with the given code. -/
def start (code : List Instruction) (s : State (List Constant) σ) : Config σ where
  code
  frames := []
  stack := []
  state := s

/-- The machine comes to what the code of a function comes to, for every
bound. Fuel counts rounds on one side and steps on the other; where the
code runs out of it, the machine has taken at least as many steps. -/
theorem matches_runFrom (hm : m.Storable) (hf : f ∈ m.functions)
    (hcheck : checkAll m f [] f.body = .ok ()) (htidy : Expr.areTidy f.body = true)
    {code : List Instruction} (hcode : instructionsAll m.index? [] f.body = .ok code)
    {s : State (List Constant) σ} (hs : f.Typed s.store) :
    (machine m f oracle).Matches (start (code ++ [.stop]) s) fuel (f.runFrom oracle s fuel) := by
  obtain ⟨code', hcode', -, hemulates⟩ :=
    evalAll_encoded oracle fuel hm hf f.body hcheck htidy
  cases hcode.symm.trans hcode'
  have hfollows := hemulates [.stop] [] [] s hs ⟨rfl, List.forall_mem_nil _⟩
  unfold Function.runFrom
  generalize evalAll oracle fuel f.body s = result at hfollows ⊢
  cases hfollows with
  | @ok n u s' reach =>
    -- behind the body, with nothing on the stack and no block around
    have hstop : (machine m f oracle).step ⟨[.stop], [], [], s'⟩ = .error (.finished none) :=
      congrArg (fun v => Except.error (Ending.finished v)) (ite_self none)
    exact .ended nofun reach hstop rfl
  | branch index target reach => cases index
  | returned reach step => exact .ended nofun reach step rfl
  | trapped reach step => exact .ended nofun reach step rfl
  | outOfFuel long reach => exact .outOfFuel rfl long reach rfl

/-- Encoding preserves meaning. A function of a valid module, with
statements that leave no value, has instructions, and the machine does
with them what the code of the function does: it ends alike, with the
same slots, host, memory, calls and result; it traps alike; and it goes
on forever alike, with the same endless calls. Neither ever gets stuck. -/
theorem functionCode_preserves_behaviour (hvalid : m.validate = .ok ()) (hstorable : m.Storable)
    (hf : f ∈ m.functions) (htidy : Expr.areTidy f.body = true) (oracle : Oracle σ)
    {s : State (List Constant) σ} (hs : f.Typed s.store) :
    ∃ entry, functionCode (indexMap m) f = .ok entry
      ∧ Runs.SameBehaviour (f.runFrom oracle s)
        ((machine m f oracle).run (start entry.instructions s))
      ∧ ∀ fuel, (f.runFrom oracle s fuel).ending ≠ .stuck := by
  have hcheck := Module.checkBodies_eq_ok.mp (Module.validate_eq_ok.mp hvalid).2.2.2 f hf
  obtain ⟨code, hcode, -⟩ := evalAll_encoded oracle 0 hstorable hf f.body hcheck htidy
  refine ⟨{ locals := localRuns f.locals, instructions := code ++ [.stop] }, ?_, ?_, ?_⟩
  · rw [functionCode, get?_indexMap hvalid, hcode]
    rfl
  · exact Machine.sameBehaviour_of_matches fun fuel =>
      matches_runFrom oracle fuel hstorable hf hcheck htidy hcode hs
  · exact Function.ending_runFrom_ne_stuck hstorable hf hcheck oracle hs

/-- A function that steps its argument down in a loop. -/
def countdown : Function where
  name := "countdown"
  params := [.i32]
  locals := []
  result := .i32
  body :=
    [.block "exit"
      [.branchIf "exit" (.get 0 .i32) .zero,
        .loop "repeat"
          [.set 0 (.call "step" [.get 0 .i32] .i32), .branchIf "repeat" (.get 0 .i32) .nonzero]],
      .returnValue (.get 0 .i32)]
  slotNames := ["n"]
  kind := .user

/-- The module of `countdown`, with the function that it calls. -/
def countdownModule : Module where
  imports :=
    [{ name := "step", module := "env", base := "step", params := [.i32], result := .i32 }]
  functions := [countdown]
  exports := []
  memory := {}

/-- The instructions of `countdown` do what its code does, which is to
call once and to return the answer, if the answer is zero. -/
theorem countdown_encoded :
    let s : State (List Constant) Unit :=
      { store := [.i32 3], world := { host := (), memory := ∅, calls := [] } }
    (∃ entry, functionCode (indexMap countdownModule) countdown = .ok entry
        ∧ Runs.SameBehaviour (countdown.runFrom (.zero Unit) s)
          ((machine countdownModule countdown (.zero Unit)).run (start entry.instructions s))
        ∧ ∀ fuel, (countdown.runFrom (.zero Unit) s fuel).ending ≠ .stuck)
      ∧ (countdown.runFrom (.zero Unit) s 1).ending = .finished (some (.i32 0)) := by
  refine ⟨functionCode_preserves_behaviour rfl ⟨?_, ?_⟩ List.mem_cons_self rfl (.zero Unit) rfl, ?_⟩
  · decide
  · decide
  · decide

end Wasm

end CallFlow
