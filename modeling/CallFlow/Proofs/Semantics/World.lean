/-
What a running function acts on, and what can be observed of a run.

A function works on a store of its own and on a world: the state of its host,
one linear memory and the calls performed so far. Calls are answered by an
oracle, an arbitrary function of the callee's name, the argument values and the
world; its answers have the type that the call asks for, so an ill-typed answer
cannot be stated.

# Runs

Code that loops need not end, so every way to run a function takes a bound. The
report of a run that used up its bound still holds the calls performed until
then: a bound that grows uncovers the whole, perhaps endless, sequence of calls.
`SameBehaviour` compares two ways to run a function by what their reports say
for all bounds together, and so does not depend on what a bound counts.
-/
import CallFlow.Code

namespace CallFlow

-- ============================================================== values

/-- The value that a variable of a type starts with. No variable has the
type `void`; the zero of `i32` stands in for it. -/
def ValueType.zero : ValueType → Constant
  | i32 => .i32 0
  | i64 => .i64 0
  | f64 => .f64 (Binary64.zero false)
  | void => .i32 0

/-- The value that a slot starts with is of the type of the slot. -/
theorem ValueType.type_zero {t : ValueType} (h : t ≠ void) : t.zero.type = t := by
  cases t with
  | void => exact absurd rfl h
  | _ => rfl

/-- The type of what an expression or a call leaves: a value or nothing. -/
def valueType : Option Constant → ValueType
  | some c => c.type
  | none => .void

@[simp]
theorem valueType_some (c : Constant) : valueType (some c) = c.type := rfl

@[simp]
theorem valueType_none : valueType none = .void := rfl

/-- A value is never of the type without values. -/
theorem Constant.type_ne_void (c : Constant) : c.type ≠ .void := by
  cases c <;> nofun

/-- What has a storable type is a value. -/
theorem exists_of_valueType_ne_void {v : Option Constant} (h : valueType v ≠ .void) :
    ∃ c, v = some c := by
  cases v with
  | none => exact absurd rfl h
  | some c => exact ⟨c, rfl⟩

/-- Nothing is the only thing of type `void`. -/
theorem eq_none_of_valueType_void {v : Option Constant} (h : valueType v = .void) : v = none := by
  cases v with
  | none => rfl
  | some c => exact absurd h c.type_ne_void

/-- A value of type `i32` is a 32-bit integer. -/
theorem Constant.eq_i32_of_type {c : Constant} (h : c.type = .i32) : ∃ v, c = .i32 v := by
  cases c with
  | i32 v => exact ⟨v, rfl⟩
  | i64 v => nomatch h
  | f64 v => nomatch h

/-- What must be an `i32` is there and is one. -/
theorem exists_of_valueType_i32 {v : Option Constant} (h : valueType v = .i32) :
    ∃ n, v = some (.i32 n) := by
  cases v with
  | none => nomatch h
  | some c =>
    obtain ⟨n, rfl⟩ := c.eq_i32_of_type h
    exact ⟨n, rfl⟩

/-- Whether a 32-bit integer passes the test of a branch. -/
def BranchTest.passes : BranchTest → Int32 → Bool
  | zero, v => v == 0
  | nonzero, v => v != 0

theorem BranchTest.passes_zero {v : Int32} : zero.passes v = true ↔ v = 0 := beq_iff_eq

theorem BranchTest.passes_nonzero {v : Int32} : nonzero.passes v = true ↔ v ≠ 0 := bne_iff_ne

-- ======================================================= linear memory

/-- A memory of single bytes. -/
structure LinearMemory where
  size : Nat
  byte : Nat → UInt8

/-- The memory of no bytes. -/
instance : EmptyCollection LinearMemory where
  emptyCollection := { size := 0, byte := fun _ => 0 }

namespace LinearMemory

/-- The number in the bytes from an address on, lowest first. There is
none past the end of the memory. -/
def read (m : LinearMemory) (width address : Nat) : Option Nat :=
  if address + width ≤ m.size then
    some ((List.range width).foldr (fun i n => (m.byte (address + i)).toNat + 256 * n) 0)
  else none

/-- The memory with a number in the bytes from an address on, lowest
first. -/
def write (m : LinearMemory) (width address n : Nat) : Option LinearMemory :=
  if address + width ≤ m.size then
    let byte := fun a =>
      if address ≤ a ∧ a < address + width then UInt8.ofNat (n / Nat.pow 256 (a - address))
      else m.byte a
    some { m with byte }
  else none

end LinearMemory

/-- The address that a 32-bit integer stands for. -/
def addressOf (v : Int32) : Nat :=
  v.toUInt32.toNat

/-- The bits of a value as a number. -/
def Constant.toBits : Constant → Nat
  | i32 v => v.toUInt32.toNat
  | i64 v => v.toUInt64.toNat
  | f64 v => v.bits.toNat

/-- The value of a type with the given bits. -/
def Constant.ofBits : ValueType → Nat → Option Constant
  | .i32, n => some (i32 (Int32.ofNat n))
  | .i64, n => some (i64 (Int64.ofNat n))
  | .f64, n => some (f64 ⟨UInt64.ofNat n⟩)
  | .void, _ => none

-- =============================================================== calls

/-- A call that was performed. -/
structure CallRecord where
  function : String
  args : List Constant
  deriving DecidableEq

/-- What a function acts on besides its own store. -/
structure World (σ : Type) where
  host : σ
  memory : LinearMemory
  /-- The calls performed so far, in order. -/
  calls : List CallRecord

/-- The answer to a call that asks for a type. -/
structure Answer (t : ValueType) where
  value : Option Constant
  type_value : valueType value = t

/-- The answer that is zero, or nothing where nothing is asked for. -/
def Answer.zero : (t : ValueType) → Answer t
  | .i32 => ⟨some (.i32 0), rfl⟩
  | .i64 => ⟨some (.i64 0), rfl⟩
  | .f64 => ⟨some (.f64 (Binary64.zero false)), rfl⟩
  | .void => ⟨none, rfl⟩

/-- An interpretation of calls. -/
def Oracle (σ : Type) : Type :=
  String → List Constant → (result : ValueType) → σ → LinearMemory →
    Answer result × σ × LinearMemory

/-- The oracle that answers zero to every call and changes nothing. -/
def Oracle.zero (σ : Type) : Oracle σ := fun _ _ t host memory =>
  (.zero t, host, memory)

/-- The world after a call, with the answer to it. -/
def Oracle.call {σ : Type} (oracle : Oracle σ) (function : String) (args : List Constant)
    (result : ValueType) (w : World σ) : Option Constant × World σ :=
  let (answer, host, memory) := oracle function args result w.host w.memory
  (answer.value, { host, memory, calls := w.calls ++ [⟨function, args⟩] })

/-- The answer to a call has the type that was asked for. -/
theorem Oracle.valueType_call {σ : Type} (oracle : Oracle σ) (function : String)
    (args : List Constant) (result : ValueType) (w : World σ) :
    valueType (oracle.call function args result w).1 = result :=
  (oracle function args result w.host w.memory).1.type_value

-- ============================================================= reports

/-- How a run ends. -/
inductive Ending where
  /-- The function ended, with a result or without. -/
  | finished (result : Option Constant)
  /-- A memory access was out of bounds. -/
  | trapped
  /-- The code asked for something that there is not. -/
  | stuck
  /-- The bound was used up. -/
  | outOfFuel
  deriving DecidableEq

/-- What a bounded run came to. -/
structure Report (τ : Type) where
  ending : Ending
  /-- The calls performed, in order. -/
  calls : List CallRecord
  /-- What the run left behind. -/
  final : τ

/-- A report says what another says, or that the bound was used up after
some of its calls. -/
def Report.Upto {τ : Type} (r r' : Report τ) : Prop :=
  r = r' ∨ r.ending = .outOfFuel ∧ r.calls <+: r'.calls

/-- A way to run a function, by the bound. -/
abbrev Runs (τ : Type) := Nat → Report τ

namespace Runs

variable {τ : Type}

/-- With some bound the run ends as reported. -/
def Ends (r : Runs τ) (report : Report τ) : Prop :=
  report.ending ≠ .outOfFuel ∧ ∃ fuel, r fuel = report

/-- Every bound is used up. -/
def Diverges (r : Runs τ) : Prop :=
  ∀ fuel, (r fuel).ending = .outOfFuel

/-- With some bound the run performs at least these calls, before any
other. -/
def Performs (r : Runs τ) (calls : List CallRecord) : Prop :=
  ∃ fuel, calls <+: (r fuel).calls

/-- Two ways to run a function that nobody can tell apart: they end
alike, with the same calls, the same result and the same things left
behind; they go on forever alike; and on the way, endless or not, they
perform the same calls. -/
structure SameBehaviour (r₁ r₂ : Runs τ) : Prop where
  ends : ∀ report, r₁.Ends report ↔ r₂.Ends report
  diverges : r₁.Diverges ↔ r₂.Diverges
  performs : ∀ calls, r₁.Performs calls ↔ r₂.Performs calls

/-- Ways to run a function that give the same reports have the same
behaviour. -/
theorem SameBehaviour.of_eq {r₁ r₂ : Runs τ} (h : ∀ fuel, r₁ fuel = r₂ fuel) :
    SameBehaviour r₁ r₂ := by
  have hr : r₁ = r₂ := funext h
  subst hr
  exact ⟨fun _ => Iff.rfl, Iff.rfl, fun _ => Iff.rfl⟩

/-- Two ways to run a function have the same behaviour if each comes as
far as the other with a bound of its own. To come to an end carries over
in one direction and to go on forever in the other, so both are needed. -/
theorem SameBehaviour.of_upto {r₁ r₂ : Runs τ}
    (h₁ : ∀ n, ∃ m, (r₁ n).Upto (r₂ m)) (h₂ : ∀ n, ∃ m, (r₂ n).Upto (r₁ m)) :
    SameBehaviour r₁ r₂ := by
  have hends : ∀ {r r' : Runs τ}, (∀ n, ∃ m, (r n).Upto (r' m)) →
      ∀ report, r.Ends report → r'.Ends report := by
    rintro r r' h report ⟨hne, n, rfl⟩
    obtain ⟨m, heq | ⟨hout, -⟩⟩ := h n
    · exact ⟨hne, m, heq.symm⟩
    · exact absurd hout hne
  have hdiverges : ∀ {r r' : Runs τ}, (∀ n, ∃ m, (r n).Upto (r' m)) → r'.Diverges → r.Diverges := by
    intro r r' h hd n
    obtain ⟨m, heq | ⟨hout, -⟩⟩ := h n
    · rw [heq, hd m]
    · exact hout
  have hperforms : ∀ {r r' : Runs τ}, (∀ n, ∃ m, (r n).Upto (r' m)) →
      ∀ calls, r.Performs calls → r'.Performs calls := by
    rintro r r' h calls ⟨n, hcalls⟩
    obtain ⟨m, heq | ⟨-, hprefix⟩⟩ := h n
    · exact ⟨m, heq ▸ hcalls⟩
    · exact ⟨m, hcalls.trans hprefix⟩
  exact ⟨fun report => ⟨hends h₁ report, hends h₂ report⟩, ⟨hdiverges h₂, hdiverges h₁⟩,
    fun calls => ⟨hperforms h₁ calls, hperforms h₂ calls⟩⟩

end Runs

end CallFlow
