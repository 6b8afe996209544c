/-
Reading undoes writing.

`Reads r bytes x` says that a reader takes exactly these bytes off whatever they are put
in front of, and that it finds `x` in them. Readings in sequence compose, so what is
written for a module is read piece by piece along the grammar. The bytes of anything
with a size or a count behind it must be fewer than `2 ^ 32`, and every index must be
below that bound.
-/
import CallFlow.Proofs.Text.Utf8
import CallFlow.Proofs.Wasm.Grammar
import Mathlib.Tactic.Linarith
import Mathlib.Tactic.Ring

namespace CallFlow.Wasm

/-- The reader finds a value in exactly these bytes, whatever is behind
them. -/
def Reads {α : Type} (r : Reader α) (bytes : List UInt8) (x : α) : Prop :=
  ∀ rest, r (bytes ++ rest) = some (x, rest)

-- ============================================================= what fits

/-- A function type of values only. -/
def FunctionType.Storable (t : FunctionType) : Prop :=
  (∀ p ∈ t.params, p ≠ .void) ∧ ∀ r ∈ t.results, r ≠ .void

/-- The number that an instruction carries besides constants. -/
def Instruction.immediate : Instruction → Nat
  | .localGet i => i
  | .localSet i => i
  | .call f => f
  | .i32Load a => a
  | .f64Load a => a
  | .i32Store a => a
  | .f64Store a => a
  | .branchIf d => d
  | _ => 0

/-- Code in which every block is closed. -/
inductive Nested : List Instruction → Prop where
  | nil : Nested []
  | cons {i : Instruction} {code : List Instruction} :
    i ≠ .block → i ≠ .loop → i ≠ .stop → Nested code → Nested (i :: code)
  | enclose {i : Instruction} {body code : List Instruction} :
    i = .block ∨ i = .loop → Nested body → Nested code → Nested (i :: body ++ .stop :: code)

/-- Properly nested code stays so when it is put together. -/
theorem Nested.append {code code' : List Instruction} (h : Nested code) (h' : Nested code') :
    Nested (code ++ code') := by
  induction h with
  | nil => exact h'
  | cons h1 h2 h3 _ ih => exact .cons h1 h2 h3 ih
  | enclose hi hbody _ _ ih =>
    rw [List.append_assoc]
    exact .enclose hi hbody ih

/-- The code of a function that can be written: its runs and immediates
fit, and its instructions are nested up to their end. -/
structure CodeEntry.Fits (c : CodeEntry) : Prop where
  locals : ∀ run ∈ c.locals, run.1 < 2 ^ 32 ∧ run.2 ≠ .void
  nested : ∃ code, c.instructions = code ++ [.stop] ∧ Nested code
  immediates : ∀ i ∈ c.instructions, i.immediate < 2 ^ 32

/-- The index that an exported thing has in its space. -/
def ExportTarget.index : ExportTarget → Nat
  | function index => index
  | memory => 0

/-- Names with indices that fit. -/
structure Names.Fits (n : Names) : Prop where
  functions : ∀ p ∈ n.functions, p.1 < 2 ^ 32
  locals : ∀ p ∈ n.locals, p.1 < 2 ^ 32 ∧ ∀ q ∈ p.2, q.1 < 2 ^ 32

/-- The section that names are written to. -/
def Names.toSection (n : Names) : Section :=
  .names [.functions n.functions, .locals n.locals]

/-- A binary all of whose types, indices and code can be written. -/
structure Binary.Fits (b : Binary) : Prop where
  types : ∀ t ∈ b.types, t.Storable
  imports : ∀ i ∈ b.imports, i.type < 2 ^ 32
  functions : ∀ t ∈ b.functions, t < 2 ^ 32
  exports : ∀ e ∈ b.exports, e.target.index < 2 ^ 32
  codes : ∀ c ∈ b.codes, c.Fits
  names : ∀ n ∈ b.names, n.Fits

/-- A number takes at least one byte, and so does everything that starts
with a number. -/
theorem unsigned_ne_nil (n : Nat) : unsigned n ≠ [] := by
  rw [unsigned]
  split <;> exact List.cons_ne_nil _ _

theorem text_ne_nil (s : String) : text s ≠ [] := by
  rw [text, sized]
  exact fun h => unsigned_ne_nil _ (List.append_eq_nil_iff.mp h).1

theorem append_ne_nil {bytes more : List UInt8} (h : bytes ≠ []) : bytes ++ more ≠ [] :=
  fun happ => h (List.append_eq_nil_iff.mp happ).1

/-- An instruction takes at least one byte, its opcode. -/
theorem Instruction.encode_ne_nil (i : Instruction) : i.encode ≠ [] := by
  cases i <;> exact List.cons_ne_nil _ _

/-- Putting the size before bytes makes them longer, if anything. -/
theorem length_le_sized (bytes : List UInt8) : bytes.length ≤ (sized bytes).length := by
  rw [sized, List.length_append]
  omega

theorem length_lt_sectionOf (id : UInt8) (content : List UInt8) :
    content.length < (sectionOf id content).length :=
  Nat.lt_succ_of_le (length_le_sized content)

/-- The names of functions are shorter than the section that holds them. -/
theorem Names.length_functions_lt (n : Names) :
    (vector numberedName n.functions).length < n.encode.length := by
  have h := length_lt_sectionOf 1 (vector numberedName n.functions)
  rw [Names.encode]
  refine Nat.lt_trans (Nat.lt_of_lt_of_le h ?_) (length_lt_sectionOf 0 _)
  rw [List.length_append, List.length_append]
  omega

/-- The names of slots are shorter than the section that holds them. -/
theorem Names.length_locals_lt (n : Names) :
    (vector slotNames n.locals).length < n.encode.length := by
  have h := length_lt_sectionOf 2 (vector slotNames n.locals)
  rw [Names.encode]
  refine Nat.lt_trans (Nat.lt_of_lt_of_le h ?_) (length_lt_sectionOf 0 _)
  rw [List.length_append]
  omega

/-- Items that are not empty are no more than their bytes. -/
theorem length_le_flatMap {α : Type} {encode : α → List UInt8} {xs : List α}
    (hne : ∀ x ∈ xs, encode x ≠ []) : xs.length ≤ (xs.flatMap encode).length := by
  induction xs with
  | nil => exact Nat.le_refl 0
  | cons x xs ih =>
    rw [List.forall_mem_cons] at hne
    have hx := List.length_pos_iff.mpr hne.1
    have hxs := ih hne.2
    rw [List.flatMap_cons, List.length_append, List.length_cons]
    omega

/-- An item has no more bytes than all of them together. -/
theorem length_le_of_mem {α : Type} {encode : α → List UInt8} {xs : List α} {x : α} (h : x ∈ xs) :
    (encode x).length ≤ (xs.flatMap encode).length := by
  rw [List.flatMap_def]
  exact (List.sublist_flatten_of_mem (List.mem_map_of_mem h)).length_le

namespace Reads

open Reader

variable {α β : Type} {r : Reader α} {bytes more : List UInt8} {x : α}

-- ============================================================= sequence

theorem pure (x : α) : Reads (Pure.pure x) [] x :=
  fun _ => rfl

theorem bind {f : α → Reader β} {y : β} (hr : Reads r bytes x) (hf : Reads (f x) more y) :
    Reads (r >>= f) (bytes ++ more) y := by
  intro rest
  show (r (bytes ++ more ++ rest)).bind (fun p => f p.1 p.2) = _
  rw [List.append_assoc, hr]
  exact hf rest

/-- A last step that only makes a value. -/
theorem map {f : α → β} (hr : Reads r bytes x) :
    Reads (r >>= fun a => Pure.pure (f a)) bytes (f x) := by
  have h := hr.bind (f := fun a => Pure.pure (f a)) (Reads.pure (f x))
  rwa [List.append_nil] at h

theorem byte (b : UInt8) : Reads Reader.byte [b] b :=
  fun _ => rfl

/-- A reading that starts with a known byte goes on from there. -/
theorem behind {f : UInt8 → Reader β} {b : UInt8} {y : β} (hf : Reads (f b) more y) :
    Reads (Reader.byte >>= f) (b :: more) y :=
  (Reads.byte b).bind hf

theorem expect (b : UInt8) : Reads (Reader.expect b) [b] () := by
  apply behind
  rw [if_pos rfl]
  exact Reads.pure ()

/-- A last step that may fail but takes no bytes. -/
theorem filterMap {f : α → Option β} {y : β} (hr : Reads r bytes x) (hf : f x = some y) :
    Reads (r >>= fun a => StateT.lift (f a)) bytes y := by
  have hlift : Reads (StateT.lift (f x)) [] y := by
    intro rest
    rw [hf]
    rfl
  have h := hr.bind (f := fun a => StateT.lift (f a)) hlift
  rwa [List.append_nil] at h

theorem take (bytes : List UInt8) : Reads (Reader.take bytes.length) bytes bytes := by
  intro rest
  unfold Reader.take
  rw [if_pos (by rw [List.length_append]; omega), List.take_left, List.drop_left]

/-- A reader that reads all the bytes reads them as a whole. -/
theorem whole (h : Reads r bytes x) : Reader.whole r bytes = some x := by
  have hr := h []
  rw [List.append_nil] at hr
  unfold Reader.whole
  rw [hr]

/-- Reading up to the end goes on behind a value that takes some bytes. -/
theorem untilEnd (h : Reads r bytes x) (hne : bytes ≠ []) (rest : List UInt8) :
    Reader.untilEnd r (bytes ++ rest) = (Reader.untilEnd r rest).map (x :: ·) := by
  have hr := h rest
  have hlonger : rest.length < (bytes ++ rest).length := by
    rw [List.length_append]
    have := List.length_pos_iff.mpr hne
    omega
  cases hall : bytes ++ rest with
  | nil =>
    rw [hall] at hlonger
    cases hlonger
  | cons b tail =>
    rw [hall] at hr hlonger
    rw [Reader.untilEnd, hr]
    simp only [hlonger, if_true]

-- ============================================================== numbers

/-- A number is read back from its shortest form, if its bits suffice.
Seven bits go into each byte, and the last byte is the first without the
continuation bit. -/
theorem natural {n bits : Nat} (h : n < 2 ^ bits) : Reads (Reader.natural bits) (unsigned n) n := by
  intro rest
  induction n using unsigned.induct generalizing bits with
  | case1 n hn =>
    have hb : (UInt8.ofNat n).toNat = n := by
      rw [UInt8.toNat_ofNat']
      omega
    rw [unsigned, if_pos hn, List.singleton_append, Reader.natural, hb, if_pos hn, if_pos h]
  | case2 n hn ih =>
    have hb : (UInt8.ofNat (n % 128 + 128)).toNat = n % 128 + 128 := by
      rw [UInt8.toNat_ofNat']
      omega
    have hbits : 7 < bits := by
      by_contra hle
      have := Nat.pow_le_pow_right (n := 2) (by omega) (Nat.le_of_not_lt hle)
      omega
    have hhigh : n / 128 < 2 ^ (bits - 7) := by
      have hsplit : 2 ^ bits = 2 ^ (bits - 7) * 128 := by
        rw [show (128 : Nat) = 2 ^ 7 from rfl, ← Nat.pow_add]
        congr 1
        omega
      rw [Nat.div_lt_iff_lt_mul (by omega), ← hsplit]
      exact h
    rw [unsigned, if_neg hn, List.cons_append, Reader.natural, hb, if_neg (by omega),
      if_pos hbits, ih hhigh]
    simp only [Option.some.injEq, Prod.mk.injEq, and_true]
    omega

/-- An integer is read back from its shortest form, if its bits suffice.
As for naturals, but the last byte also carries the sign, so that one
bit less is left for the value. -/
theorem integer {n : Int} {bits : Nat} (hbits : 0 < bits) (hlow : -2 ^ (bits - 1) ≤ n)
    (hhigh : n < 2 ^ (bits - 1)) : Reads (Reader.integer bits) (signed n) n := by
  intro rest
  induction n using signed.induct generalizing bits with
  | case1 n hn =>
    have hb : ((UInt8.ofNat (n % 128).toNat).toNat : Int) = n % 128 := by
      rw [UInt8.toNat_ofNat']
      omega
    rw [signed, if_pos hn, List.singleton_append, Reader.integer]
    generalize (UInt8.ofNat (n % 128).toNat).toNat = b at hb
    by_cases hneg : n < 0
    · rw [if_neg (by omega), if_pos (by omega), if_pos]
      · simp only [Option.some.injEq, Prod.mk.injEq, and_true]
        omega
      · zify
        omega
    · rw [if_pos (by omega), if_pos]
      · simp only [Option.some.injEq, Prod.mk.injEq, and_true]
        omega
      · zify
        omega
  | case2 n hn ih =>
    have hb : ((UInt8.ofNat ((n % 128).toNat + 128)).toNat : Int) = n % 128 + 128 := by
      rw [UInt8.toNat_ofNat']
      omega
    have hbits' : 7 < bits := by
      by_contra hle
      have hpow : (2 : Int) ^ (bits - 1) ≤ 2 ^ 6 :=
        pow_le_pow_right₀ (by decide) (by omega)
      omega
    have hsplit : (2 : Int) ^ (bits - 1) = 2 ^ (bits - 7 - 1) * 128 := by
      rw [show (128 : Int) = 2 ^ 7 from rfl, ← pow_add]
      congr 1
      omega
    rw [signed, if_neg hn, List.cons_append, Reader.integer]
    generalize (UInt8.ofNat ((n % 128).toNat + 128)).toNat = b at hb
    rw [if_neg (by omega), if_neg (by omega), if_pos hbits',
      ih (by omega) (by omega) (by omega)]
    simp only [Option.some.injEq, Prod.mk.injEq, and_true]
    omega

theorem u32 {n : Nat} (h : n < 2 ^ 32) : Reads Reader.u32 (unsigned n) n :=
  Reads.natural h

/-- A number that must be zero. -/
theorem zero (x : α) :
    Reads (Reader.u32 >>= fun n => if n = 0 then Pure.pure x else failure) (unsigned 0) x := by
  have hzero : Reads Reader.u32 (unsigned 0) 0 := Reads.u32 (by decide)
  have h := hzero.bind (f := fun n => if n = 0 then Pure.pure x else failure) (Reads.pure x)
  rwa [List.append_nil] at h

/-- Eight bytes are read back to the word that they were written for,
least significant byte first. -/
theorem word (w : UInt64) : Reads Reader.word (Instruction.littleEndian w) w := by
  have hlength : (Instruction.littleEndian w).length = 8 := rfl
  have hvalue : UInt64.ofNat ((Instruction.littleEndian w).foldr (fun b n => b.toNat + 256 * n) 0)
      = w := by
    apply UInt64.toNat_inj.mp
    have hw : w.toNat < 2 ^ 64 := w.toNat_lt
    simp only [Instruction.littleEndian, List.range, List.range.loop, List.map_cons, List.map_nil,
      List.foldr_cons, List.foldr_nil, UInt8.toNat_ofNat', UInt64.toNat_ofNat']
    simp only [Nat.pow_eq, Nat.reducePow]
    omega
  have h := (Reads.take (Instruction.littleEndian w)).map
    (f := fun bytes => UInt64.ofNat (bytes.foldr (fun b n => b.toNat + 256 * n) 0))
  rw [hlength, hvalue] at h
  exact h

-- ============================================================ sequences

/-- Values one behind the other are read back in order, if each of them
is. -/
theorem times {encode : α → List UInt8} {xs : List α}
    (h : ∀ x ∈ xs, Reads r (encode x) x) :
    Reads (Reader.times r xs.length) (xs.flatMap encode) xs := by
  induction xs with
  | nil => exact Reads.pure []
  | cons x xs ih =>
    rw [List.forall_mem_cons] at h
    exact h.1.bind ((ih h.2).map)

/-- A list is read back behind its count if every item is. An item takes
at least one byte, so the count is no larger than the bytes are many. -/
theorem listOf {encode : α → List UInt8} {xs : List α} (hsize : (vector encode xs).length < 2 ^ 32)
    (hne : ∀ x ∈ xs, encode x ≠ [])
    (h : ∀ x ∈ xs, (encode x).length < 2 ^ 32 → Reads r (encode x) x) :
    Reads (Reader.listOf r) (vector encode xs) xs := by
  have hlength : (vector encode xs).length
      = (unsigned xs.length).length + (xs.flatMap encode).length := List.length_append
  have hcount : xs.length ≤ (xs.flatMap encode).length := length_le_flatMap hne
  apply (Reads.u32 (by omega)).bind
  apply Reads.times
  intro x hx
  have hitem : (encode x).length ≤ (xs.flatMap encode).length := length_le_of_mem hx
  exact h x hx (by omega)

theorem blob (h : bytes.length < 2 ^ 32) : Reads Reader.blob (Wasm.sized bytes) bytes :=
  (Reads.u32 h).bind (Reads.take bytes)

/-- What is read from bytes can be read from them under their size. -/
theorem sized (h : bytes.length < 2 ^ 32) (hr : Reads r bytes x) :
    Reads (Reader.sized r) (Wasm.sized bytes) x :=
  (Reads.blob h).filterMap hr.whole

/-- A name is read back from its encoding, which is valid. -/
theorem name {s : String} (h : (text s).length < 2 ^ 32) : Reads Reader.name (text s) s := by
  have hlength : (text s).length = (unsigned (Text.utf8 s).length).length + (Text.utf8 s).length :=
    List.length_append
  have hbytes : (Text.utf8 s).length < 2 ^ 32 := by omega
  exact (Reads.blob hbytes).filterMap (Text.ofUtf8?_utf8 s)

-- ================================================================ types

theorem valueType {t : ValueType} (h : t ≠ .void) : Reads Reader.valueType (typeByte t) t := by
  cases t with
  | void => exact absurd rfl h
  | _ => exact behind (Reads.pure _)

theorem valueTypes {ts : List ValueType} (h : ∀ t ∈ ts, t ≠ .void)
    (hsize : (vector typeByte ts).length < 2 ^ 32) :
    Reads (Reader.listOf Reader.valueType) (vector typeByte ts) ts :=
  Reads.listOf hsize (fun _ _ => List.cons_ne_nil _ _) fun t ht _ => Reads.valueType (h t ht)

/-- The type of a function is read back, parameters first. -/
theorem functionType {t : FunctionType} (h : t.Storable) (hsize : t.encode.length < 2 ^ 32) :
    Reads Reader.functionType t.encode t := by
  have hlength : t.encode.length
      = 1 + (vector typeByte t.params).length + (vector typeByte t.results).length := by
    rw [FunctionType.encode, List.cons_append, List.length_cons, List.length_append]
    omega
  exact (Reads.expect 0x60).bind
    ((Reads.valueTypes h.1 (by omega)).bind ((Reads.valueTypes h.2 (by omega)).map))

-- ========================================================= instructions

/-- The immediate of a load or store is read back: an alignment, and the
offset that is always zero. -/
theorem access {alignment : Nat} (h : alignment < 2 ^ 32) :
    Reads Reader.access (unsigned alignment ++ unsigned 0) alignment :=
  (Reads.u32 h).bind (Reads.zero alignment)

theorem i32 (v : Int32) : Reads (Reader.integer 32) (signed v.toInt) v.toInt :=
  Reads.integer (by decide) v.le_toInt v.toInt_lt

theorem i64 (v : Int64) : Reads (Reader.integer 64) (signed v.toInt) v.toInt :=
  Reads.integer (by decide) v.le_toInt v.toInt_lt

/-- An instruction is read back if its immediate fits. Each opcode is
written by one instruction only. -/
theorem instruction {i : Instruction} (h : i.immediate < 2 ^ 32) :
    Reads Reader.instruction i.encode i := by
  cases i with
  | i32Const v =>
    have hv := (Reads.i32 v).map (f := fun n => Instruction.i32Const (Int32.ofInt n))
    rw [Int32.ofInt_toInt] at hv
    exact behind hv
  | i64Const v =>
    have hv := (Reads.i64 v).map (f := fun n => Instruction.i64Const (Int64.ofInt n))
    rw [Int64.ofInt_toInt] at hv
    exact behind hv
  | f64Const v => exact behind ((Reads.word v.bits).map)
  | localGet i => exact behind ((Reads.u32 h).map)
  | localSet i => exact behind ((Reads.u32 h).map)
  | call f => exact behind ((Reads.u32 h).map)
  | i32Load a => exact behind ((Reads.access h).map)
  | f64Load a => exact behind ((Reads.access h).map)
  | i32Store a => exact behind ((Reads.access h).map)
  | f64Store a => exact behind ((Reads.access h).map)
  | ret => exact behind (Reads.pure _)
  | block => exact behind ((Reads.expect _).map)
  | loop => exact behind ((Reads.expect _).map)
  | stop => exact behind (Reads.pure _)
  | branchIf d => exact behind ((Reads.u32 h).map)
  | i32Eqz => exact behind (Reads.pure _)

/-- An instruction that closes nothing is put in front of what is read
behind it. -/
theorem instructionsIn_cons {i : Instruction} {depth : Nat} (h : i.immediate < 2 ^ 32)
    (hopen : ¬(i = .stop ∧ depth = 0)) (rest : List UInt8) :
    Reader.instructionsIn depth (i.encode ++ rest)
      = (Reader.instructionsIn (Reader.depthBehind depth i) rest).map fun p => (i :: p.1, p.2) := by
  have hi := Reads.instruction h rest
  have hlonger : rest.length < (i.encode ++ rest).length := by
    have := List.length_pos_iff.mpr i.encode_ne_nil
    rw [List.length_append]
    omega
  rw [Reader.instructionsIn, hi]
  simp only [hlonger, hopen, if_true, if_false]

/-- Nested code is put in front of what is read behind it, at the same
depth. The induction is over how the code is nested, with the depth as a
parameter. -/
theorem instructionsIn_append {code : List Instruction} (hcode : Nested code)
    (h : ∀ i ∈ code, i.immediate < 2 ^ 32) (depth : Nat) (rest : List UInt8) :
    Reader.instructionsIn depth (code.flatMap Instruction.encode ++ rest)
      = (Reader.instructionsIn depth rest).map fun p => (code ++ p.1, p.2) := by
  induction hcode generalizing depth rest with
  | nil => exact (Option.map_id_apply).symm
  | @cons i code h1 h2 h3 _ ih =>
    rw [List.forall_mem_cons] at h
    have hdepth : Reader.depthBehind depth i = depth := by
      cases i <;> first | rfl | contradiction
    rw [List.flatMap_cons, List.append_assoc, instructionsIn_cons h.1 (fun hs => h3 hs.1), hdepth,
      ih h.2, Option.map_map]
    rfl
  | @enclose i body code hi _ _ ihbody ih =>
    rw [List.cons_append, List.forall_mem_cons, List.forall_mem_append, List.forall_mem_cons] at h
    obtain ⟨hhead, hbody, hstop, hcode⟩ := h
    have hdepth : Reader.depthBehind depth i = depth + 1 := by
      rcases hi with rfl | rfl <;> rfl
    have hopen : ¬(i = .stop ∧ depth = 0) := by
      rcases hi with rfl | rfl <;> exact fun hs => Instruction.noConfusion hs.1
    rw [List.cons_append, List.flatMap_cons, List.flatMap_append, List.flatMap_cons,
      List.append_assoc, List.append_assoc, List.append_assoc, instructionsIn_cons hhead hopen,
      hdepth, ihbody hbody, instructionsIn_cons hstop (by omega)]
    show ((Option.map _ (Reader.instructionsIn depth _)).map _).map _ = _
    rw [ih hcode, Option.map_map, Option.map_map, Option.map_map]
    congr 1
    funext p
    simp

/-- Nested code is read back up to the end behind it. -/
theorem expression {code : List Instruction} (hcode : Nested code)
    (h : ∀ i ∈ code ++ [.stop], i.immediate < 2 ^ 32) :
    Reads Reader.expression ((code ++ [Instruction.stop]).flatMap Instruction.encode)
      (code ++ [.stop]) := by
  intro rest
  rw [List.forall_mem_append] at h
  rw [List.flatMap_append, List.append_assoc]
  show Reader.instructionsIn 0 _ = _
  rw [instructionsIn_append hcode h.1]
  have hstop : Reader.instructionsIn 0 (0x0B :: rest) = some ([.stop], rest) := by
    rw [Reader.instructionsIn, show Reader.instruction (0x0B :: rest) = some (.stop, rest) from rfl]
    simp
  show Option.map _ (Reader.instructionsIn 0 (0x0B :: rest)) = _
  rw [hstop]
  rfl

-- ============================================================== entries

theorem importEntry {i : ImportEntry} (h : i.type < 2 ^ 32) (hsize : i.encode.length < 2 ^ 32) :
    Reads Reader.importEntry i.encode i := by
  have hlength : i.encode.length
      = (text i.module).length + (text i.base).length + 1 + (unsigned i.type).length := by
    rw [ImportEntry.encode, List.length_append, List.length_append, List.length_cons]
    omega
  rw [ImportEntry.encode, List.append_assoc]
  exact (Reads.name (by omega)).bind ((Reads.name (by omega)).bind
    ((Reads.expect 0x00).bind ((Reads.u32 h).map)))

/-- The limits of a memory are read back, the maximum being always
there. -/
theorem limits {initial maximum : Nat} (hi : initial < 2 ^ 32) (hm : maximum < 2 ^ 32) :
    Reads Reader.limits (0x01 :: unsigned initial ++ unsigned maximum) (initial, some maximum) :=
  behind ((Reads.u32 hi).bind ((Reads.u32 hm).map))

/-- What is exported is read back: the kind and the index. -/
theorem exportTarget {t : ExportTarget} (h : t.index < 2 ^ 32) :
    Reads Reader.exportTarget t.encode t := by
  cases t with
  | function i => exact behind ((Reads.u32 h).map)
  | memory => exact behind (Reads.zero _)

theorem exportEntry {e : ExportEntry} (h : e.target.index < 2 ^ 32)
    (hsize : e.encode.length < 2 ^ 32) : Reads Reader.exportEntry e.encode e := by
  have hlength : e.encode.length = (text e.name).length + e.target.encode.length :=
    List.length_append
  exact (Reads.name (by omega)).bind ((Reads.exportTarget h).map)

theorem localRun {run : Nat × ValueType} (h : run.1 < 2 ^ 32 ∧ run.2 ≠ .void) :
    Reads Reader.localRun (Wasm.localRun run) run :=
  (Reads.u32 h.1).bind ((Reads.valueType h.2).map)

/-- The code of a function is read back under its size: the runs, then
the instructions up to the one that closes them. -/
theorem codeEntry {c : CodeEntry} (h : c.Fits) (hsize : c.encode.length < 2 ^ 32) :
    Reads Reader.codeEntry c.encode c := by
  obtain ⟨code, hcode, hnested⟩ := h.nested
  have hlength := length_le_sized
    (vector Wasm.localRun c.locals ++ c.instructions.flatMap Instruction.encode)
  have hlocals : (vector Wasm.localRun c.locals).length
      ≤ (vector Wasm.localRun c.locals ++ c.instructions.flatMap Instruction.encode).length := by
    rw [List.length_append]
    omega
  have hexpression : Reads Reader.expression (c.instructions.flatMap Instruction.encode)
      c.instructions := by
    rw [hcode]
    exact Reads.expression hnested (hcode ▸ h.immediates)
  unfold CodeEntry.encode at hsize
  apply Reads.sized (by omega)
  have hruns : Reads (Reader.listOf Reader.localRun) (vector Wasm.localRun c.locals) c.locals :=
    Reads.listOf (by omega) (fun run _ => append_ne_nil (unsigned_ne_nil run.1))
      fun run hrun _ => Reads.localRun (h.locals run hrun)
  exact hruns.bind hexpression.map

/-- A segment is read back with its address and its bytes. -/
theorem dataEntry {d : DataEntry} (hsize : d.encode.length < 2 ^ 32) :
    Reads Reader.dataEntry d.encode d := by
  have hlength := length_le_sized d.bytes
  have hparts : d.encode.length = 1 + (Instruction.i32Const d.offset).encode.length
      + Instruction.stop.encode.length + (Wasm.sized d.bytes).length := by
    rw [DataEntry.encode, List.cons_append, List.cons_append, List.length_cons, List.length_append,
      List.length_append]
    omega
  have hnested : Nested [.i32Const d.offset] :=
    .cons Instruction.noConfusion Instruction.noConfusion Instruction.noConfusion .nil
  have himmediate : ∀ i ∈ [Instruction.i32Const d.offset] ++ [.stop], i.immediate < 2 ^ 32 := by
    rw [List.forall_mem_append, List.forall_mem_singleton, List.forall_mem_singleton]
    exact ⟨Nat.two_pow_pos 32, Nat.two_pow_pos 32⟩
  have hexpression := Reads.expression hnested himmediate
  have hencode : d.encode = [0x00]
      ++ (([Instruction.i32Const d.offset] ++ [Instruction.stop]).flatMap Instruction.encode
        ++ Wasm.sized d.bytes) := by
    simp [DataEntry.encode]
  rw [hencode]
  exact (Reads.expect 0x00).bind (hexpression.bind ((Reads.blob (by omega)).map))

theorem numberedName {n : Nat × String} (h : n.1 < 2 ^ 32)
    (hsize : (Wasm.numberedName n).length < 2 ^ 32) :
    Reads Reader.numberedName (Wasm.numberedName n) n := by
  have hlength : (Wasm.numberedName n).length = (unsigned n.1).length + (text n.2).length :=
    List.length_append
  exact (Reads.u32 h).bind ((Reads.name (by omega)).map)

theorem numberedNames {ns : List (Nat × String)} (h : ∀ n ∈ ns, n.1 < 2 ^ 32)
    (hsize : (vector Wasm.numberedName ns).length < 2 ^ 32) :
    Reads (Reader.listOf Reader.numberedName) (vector Wasm.numberedName ns) ns :=
  Reads.listOf hsize (fun n _ => append_ne_nil (unsigned_ne_nil n.1))
    fun n hn => Reads.numberedName (h n hn)

/-- The names of the slots of one function are read back, under the
index of the function. -/
theorem slotNames {n : Nat × List (Nat × String)} (h : n.1 < 2 ^ 32 ∧ ∀ q ∈ n.2, q.1 < 2 ^ 32)
    (hsize : (Wasm.slotNames n).length < 2 ^ 32) :
    Reads Reader.slotNames (Wasm.slotNames n) n := by
  have hlength : (Wasm.slotNames n).length
      = (unsigned n.1).length + (vector Wasm.numberedName n.2).length := List.length_append
  exact (Reads.u32 h.1).bind ((Reads.numberedNames h.2 (by omega)).map)

-- ============================================================= sections

/-- The part of the name section for functions is read back. -/
theorem functionNames {ns : List (Nat × String)} (h : ∀ n ∈ ns, n.1 < 2 ^ 32)
    (hsize : (vector Wasm.numberedName ns).length < 2 ^ 32) :
    Reads Reader.namePart (sectionOf 1 (vector Wasm.numberedName ns)) (.functions ns) :=
  behind ((Reads.sized hsize (Reads.numberedNames h hsize)).map)

/-- The part of the name section for slots is read back. -/
theorem localNames {ns : List (Nat × List (Nat × String))}
    (h : ∀ n ∈ ns, n.1 < 2 ^ 32 ∧ ∀ q ∈ n.2, q.1 < 2 ^ 32)
    (hsize : (vector Wasm.slotNames ns).length < 2 ^ 32) :
    Reads Reader.namePart (sectionOf 2 (vector Wasm.slotNames ns)) (.locals ns) := by
  have hlist := Reads.listOf hsize (fun n _ => append_ne_nil (unsigned_ne_nil n.1))
    fun n hn => Reads.slotNames (h n hn)
  exact behind ((Reads.sized hsize hlist).map)

/-- A custom section is the name section by its name, and has parts up
to its end. -/
theorem custom_name {bytes : List UInt8} {parts : List NamePart}
    (h : Reader.untilEnd Reader.namePart bytes = some parts) :
    Reader.custom (text "name" ++ bytes) = some (.names parts) := by
  have htitle : Reads Reader.name (text "name") "name" := by
    apply Reads.name
    rw [text, Wasm.sized, List.length_append, unsigned]
    decide
  unfold Reader.custom
  rw [htitle, Option.bind_eq_bind, Option.bind_some]
  show (if "name" = "name" then (Reader.untilEnd Reader.namePart bytes).bind fun parts =>
    some (Section.names parts) else _) = _
  rw [if_pos rfl, h]
  rfl

/-- The name section as a whole is read back, from its two parts. -/
theorem names {n : Names} (h : n.Fits) (hsize : n.encode.length < 2 ^ 32) :
    Reads Reader.moduleSection n.encode n.toSection := by
  have hfunctions := n.length_functions_lt.trans hsize
  have hlocals := n.length_locals_lt.trans hsize
  have hparts : Reader.untilEnd Reader.namePart
      (sectionOf 1 (vector Wasm.numberedName n.functions)
        ++ (sectionOf 2 (vector Wasm.slotNames n.locals) ++ []))
      = some [.functions n.functions, .locals n.locals] := by
    rw [(Reads.functionNames h.functions hfunctions).untilEnd (List.cons_ne_nil _ _),
      (Reads.localNames h.locals hlocals).untilEnd (List.cons_ne_nil _ _), Reader.untilEnd]
    rfl
  rw [List.append_nil] at hparts
  unfold Names.encode at hsize ⊢
  rw [List.append_assoc] at hsize ⊢
  have hcontent := (length_lt_sectionOf _ _).trans hsize
  exact behind ((Reads.blob hcontent).filterMap (custom_name hparts))

end Reads

-- =============================================================== modules

/-- The sections of a binary except for its names. -/
def Binary.unnamed (b : Binary) : List Section :=
  [.types b.types, .imports b.imports, .functions b.functions,
    .memories [(b.initialPages.toNat, some b.maximumPages.toNat)], .exports b.exports,
    .codes b.codes, .data b.data]

/-- The bytes of the sections of a binary except for its names. -/
def Binary.unnamedBytes (b : Binary) : List (List UInt8) :=
  [sectionOf 1 (vector FunctionType.encode b.types),
    sectionOf 2 (vector ImportEntry.encode b.imports),
    sectionOf 3 (vector unsigned b.functions),
    sectionOf 5 (vector id [b.limits]),
    sectionOf 7 (vector ExportEntry.encode b.exports),
    sectionOf 10 (vector CodeEntry.encode b.codes),
    sectionOf 11 (vector DataEntry.encode b.data)]

/-- A module is written as its preamble, its sections, and the name
section behind them if there is one. -/
theorem Binary.encode_eq (b : Binary) :
    b.encode = preamble ++ b.unnamedBytes.flatten
      ++ (b.names.map Names.encode).toList.flatten := by
  unfold Binary.encode Binary.unnamedBytes
  cases b.names <;> simp [List.append_assoc]

/-- The content of each section is shorter than the module. -/
theorem Binary.length_content_lt (b : Binary) (id : UInt8) (content : List UInt8)
    (h : sectionOf id content ∈ b.unnamedBytes) : content.length < b.encode.length := by
  have hlt := length_lt_sectionOf id content
  have hle := (List.sublist_flatten_of_mem h).length_le
  rw [b.encode_eq, List.length_append, List.length_append]
  omega

theorem Binary.length_names_le {b : Binary} {n : Names} (h : b.names = some n) :
    n.encode.length ≤ b.encode.length := by
  rw [b.encode_eq, h, Option.map_some, Option.toList_some, List.flatten_singleton,
    List.length_append]
  omega

/-- Each section is read back from its bytes. The sections have
different numbers, and each is found by its own. -/
theorem Binary.reads_unnamed {b : Binary} (h : b.Fits) (hsize : b.encode.length < 2 ^ 32) :
    List.Forall₂ (Reads Reader.moduleSection) b.unnamedBytes b.unnamed := by
  have hcontent : ∀ id content, sectionOf id content ∈ b.unnamedBytes →
      content.length < 2 ^ 32 :=
    fun id content hmem => (b.length_content_lt id content hmem).trans hsize
  refine .cons ?types (.cons ?imports (.cons ?functions (.cons ?memories (.cons ?exports
    (.cons ?codes (.cons ?data .nil))))))
  case types =>
    have hc := hcontent 1 (vector FunctionType.encode b.types) (by simp [Binary.unnamedBytes])
    exact Reads.behind ((Reads.sized hc (Reads.listOf hc (fun _ _ => List.cons_ne_nil _ _)
      fun t ht => Reads.functionType (h.types t ht))).map)
  case imports =>
    have hc := hcontent 2 (vector ImportEntry.encode b.imports) (by simp [Binary.unnamedBytes])
    exact Reads.behind ((Reads.sized hc (Reads.listOf hc
      (fun i _ => append_ne_nil (append_ne_nil (text_ne_nil i.module)))
      fun i hi => Reads.importEntry (h.imports i hi))).map)
  case functions =>
    have hc := hcontent 3 (vector unsigned b.functions) (by simp [Binary.unnamedBytes])
    exact Reads.behind ((Reads.sized hc (Reads.listOf hc (fun t _ => unsigned_ne_nil t)
      fun t ht _ => Reads.u32 (h.functions t ht))).map)
  case memories =>
    have hc := hcontent 5 (vector id [b.limits]) (by simp [Binary.unnamedBytes])
    have hlist : Reads (Reader.listOf Reader.limits) (vector (fun _ => b.limits)
        [(b.initialPages.toNat, some b.maximumPages.toNat)])
        [(b.initialPages.toNat, some b.maximumPages.toNat)] := by
      apply Reads.listOf
      · exact hc
      · exact fun _ _ => List.cons_ne_nil _ _
      · intro p hp _
        rw [List.mem_singleton.mp hp]
        exact Reads.limits b.initialPages.toNat_lt b.maximumPages.toNat_lt
    exact Reads.behind ((Reads.sized hc hlist).map)
  case exports =>
    have hc := hcontent 7 (vector ExportEntry.encode b.exports) (by simp [Binary.unnamedBytes])
    exact Reads.behind ((Reads.sized hc (Reads.listOf hc
      (fun e _ => append_ne_nil (text_ne_nil e.name))
      fun e he => Reads.exportEntry (h.exports e he))).map)
  case codes =>
    have hc := hcontent 10 (vector CodeEntry.encode b.codes) (by simp [Binary.unnamedBytes])
    exact Reads.behind ((Reads.sized hc (Reads.listOf hc
      (fun _ _ => append_ne_nil (unsigned_ne_nil _))
      fun c hcode => Reads.codeEntry (h.codes c hcode))).map)
  case data =>
    have hc := hcontent 11 (vector DataEntry.encode b.data) (by simp [Binary.unnamedBytes])
    exact Reads.behind ((Reads.sized hc (Reads.listOf hc (fun _ _ => List.cons_ne_nil _ _)
      fun d _ => Reads.dataEntry)).map)

/-- Bytes that are each read as a section are read up to the end. -/
theorem untilEnd_flatten {α : Type} {r : Reader α} {parts : List (List UInt8)} {xs : List α}
    (hne : ∀ bytes ∈ parts, bytes ≠ []) (h : List.Forall₂ (Reads r) parts xs) (rest : List UInt8) :
    Reader.untilEnd r (parts.flatten ++ rest) = (Reader.untilEnd r rest).map (xs ++ ·) := by
  induction h with
  | nil => exact Option.map_id_apply.symm
  | cons hbytes _ ih =>
    rw [List.forall_mem_cons] at hne
    rw [List.flatten_cons, List.append_assoc, hbytes.untilEnd hne.1, ih hne.2, Option.map_map]
    rfl

/-- What is written for a binary is read back as its sections. What is
said of single readers above is put together here, section by section. -/
theorem decode_encode {b : Binary} (h : b.Fits) (hsize : b.encode.length < 2 ^ 32) :
    decode b.encode = some (b.unnamed ++ (b.names.map Names.toSection).toList) := by
  have hunnamed := b.reads_unnamed h hsize
  have hne : ∀ bytes ∈ b.unnamedBytes, bytes ≠ [] := by
    simp [Binary.unnamedBytes, sectionOf]
  have hnames : Reader.untilEnd Reader.moduleSection (b.names.map Names.encode).toList.flatten
      = some (b.names.map Names.toSection).toList := by
    cases hn : b.names with
    | none =>
      rw [Option.map_none, Option.toList_none, List.flatten_nil, Reader.untilEnd]
      rfl
    | some n =>
      have hread := Reads.names (h.names n hn) ((b.length_names_le hn).trans_lt hsize)
      have hend := hread.untilEnd (List.cons_ne_nil _ _) []
      rw [Reader.untilEnd, List.append_nil] at hend
      rw [Option.map_some, Option.toList_some, List.flatten_singleton, hend]
      rfl
  have hall := untilEnd_flatten hne hunnamed (b.names.map Names.encode).toList.flatten
  rw [hnames] at hall
  have hpreamble : Reader.take 8 b.encode = some (preamble, b.unnamedBytes.flatten
      ++ (b.names.map Names.encode).toList.flatten) := by
    rw [b.encode_eq, List.append_assoc]
    exact Reads.take preamble _
  have hids : ((b.unnamed ++ (b.names.map Names.toSection).toList).map Section.id).filter (· ≠ 0)
      = [1, 2, 3, 5, 7, 10, 11] := by
    cases b.names <;> rfl
  unfold decode
  rw [hpreamble]
  show (Reader.untilEnd Reader.moduleSection _).bind _ = _
  rw [hall]
  show (if _ ∧ _ then some _ else none) = _
  rw [if_pos ⟨rfl, by rw [hids]; decide⟩]

end CallFlow.Wasm
