/-
Decoding undoes encoding.

The decoder is followed through the bytes of one character: the first byte says what is
owed, each further byte pays for six bits, and the last one completes the character. The
ranges of the second byte are those that the shortest encoding of a character meets.
-/
import CallFlow.Text.Utf8
import Mathlib.Tactic.IntervalCases

namespace CallFlow.Text

namespace Utf8

variable {b : UInt8} {range : UInt8 × UInt8} {bits : Nat} {owed : List (UInt8 × UInt8)}
  {bs : List UInt8}

-- ============================================================== one byte

theorem pieces_ascii (h : b < 0x80) :
    pieces none (b :: bs) = some (Char.ofNat b.toNat) :: pieces none bs := by
  rw [pieces, step, start, if_pos h]
  rfl

/-- A leading byte says how many bytes are to follow, and in which
ranges. -/
theorem pieces_lead {p : Pending} (h : ¬b < 0x80) (hp : lead? b = some p) :
    pieces none (b :: bs) = pieces (some p) bs := by
  rw [pieces, step, start, if_neg h, hp]
  rfl

/-- A byte in the range that is owed adds six bits, and the others are
owed still. -/
theorem pieces_owed {next : UInt8 × UInt8} (h : range.1 ≤ b ∧ b ≤ range.2) :
    pieces (some ⟨bits, range :: next :: owed⟩) (b :: bs)
      = pieces (some ⟨bits * 64 + b.toNat % 64, next :: owed⟩) bs := by
  rw [pieces, step, if_pos h]
  rfl

/-- The last byte that is owed completes the character. -/
theorem pieces_last (h : range.1 ≤ b ∧ b ≤ range.2) :
    pieces (some ⟨bits, [range]⟩) (b :: bs)
      = some (Char.ofNat (bits * 64 + b.toNat % 64)) :: pieces none bs := by
  rw [pieces, step, if_pos h]
  rfl

/-- A byte that carries six bits behind the mark of a further byte. -/
theorem tail_bits (n : Nat) : (UInt8.ofNat (n % 64 + 128)).toNat % 64 = n % 64 := by
  rw [UInt8.toNat_ofNat']
  omega

theorem between_ofNat {n : Nat} (hn : n < 256) (hlow : range.1.toNat ≤ n)
    (hhigh : n ≤ range.2.toNat) : range.1 ≤ UInt8.ofNat n ∧ UInt8.ofNat n ≤ range.2 := by
  rw [UInt8.le_iff_toNat_le, UInt8.le_iff_toNat_le, UInt8.toNat_ofNat', Nat.mod_eq_of_lt hn]
  exact ⟨hlow, hhigh⟩

/-- Six bits and the mark of a continuation are always in the range of
continuations. -/
theorem between_tail (n : Nat) :
    tail.1 ≤ UInt8.ofNat (n % 64 + 128) ∧ UInt8.ofNat (n % 64 + 128) ≤ tail.2 := by
  apply between_ofNat
  · omega
  · show 128 ≤ _
    omega
  · show _ ≤ 191
    omega

theorem not_ascii {n : Nat} (h : 128 ≤ n) (hn : n < 256) : ¬UInt8.ofNat n < 0x80 := by
  rw [UInt8.lt_iff_toNat_lt, UInt8.toNat_ofNat', Nat.mod_eq_of_lt hn]
  show ¬n < 128
  omega

-- ======================================================== the first byte

variable {v : Nat}

/-- The leading byte of a character in two bytes. Characters in three
and four bytes follow, with narrower ranges for what comes second. -/
theorem lead?_two (h : 127 < v) (h' : v ≤ 2047) :
    lead? (UInt8.ofNat (v / 64 % 32 + 192)) = some ⟨v / 64, [tail]⟩ := by
  have hlow : 2 ≤ v / 64 := by omega
  have hhigh : v / 64 < 32 := by omega
  generalize v / 64 = a at hlow hhigh
  interval_cases a <;> rfl

/-- The second of three bytes leaves out overlong forms and surrogates. -/
theorem lead?_three (h : 2047 < v) (h' : v ≤ 65535) (hvalid : v < 0xD800 ∨ 0xDFFF < v) :
    ∃ range, lead? (UInt8.ofNat (v / 4096 % 16 + 224)) = some ⟨v / 4096, [range, tail]⟩
      ∧ range.1.toNat ≤ v / 64 % 64 + 128 ∧ v / 64 % 64 + 128 ≤ range.2.toNat := by
  have hsplit : v / 64 / 64 = v / 4096 := Nat.div_div_eq_div_mul v 64 64
  have hhigh : v / 4096 < 16 := by omega
  have hsecond : v / 4096 = 0 → 32 ≤ v / 64 % 64 := by omega
  have hsurrogate : v / 4096 = 13 → v / 64 % 64 < 32 := by omega
  generalize v / 4096 = a at hhigh hsecond hsurrogate
  generalize hr : v / 64 % 64 = r at hsecond hsurrogate
  have hr' : r < 64 := by omega
  interval_cases a
  case «0» => exact ⟨(0xA0, 0xBF), rfl, by show 160 ≤ _; omega, by show _ ≤ 191; omega⟩
  case «13» => exact ⟨(0x80, 0x9F), rfl, by show 128 ≤ _; omega, by show _ ≤ 159; omega⟩
  all_goals exact ⟨(0x80, 0xBF), rfl, by show 128 ≤ _; omega, by show _ ≤ 191; omega⟩

/-- The second of four bytes leaves out overlong forms and what lies
past the last code point. -/
theorem lead?_four (h : 65535 < v) (h' : v < 0x110000) :
    ∃ range, lead? (UInt8.ofNat (v / 262144 % 8 + 240)) = some ⟨v / 262144, [range, tail, tail]⟩
      ∧ range.1.toNat ≤ v / 4096 % 64 + 128 ∧ v / 4096 % 64 + 128 ≤ range.2.toNat := by
  have hsplit : v / 4096 / 64 = v / 262144 := Nat.div_div_eq_div_mul v 4096 64
  have hhigh : v / 262144 < 5 := by omega
  have hsecond : v / 262144 = 0 → 16 ≤ v / 4096 % 64 := by omega
  have hlast : v / 262144 = 4 → v / 4096 % 64 < 16 := by omega
  generalize v / 262144 = a at hhigh hsecond hlast
  generalize hr : v / 4096 % 64 = r at hsecond hlast
  have hr' : r < 64 := by omega
  interval_cases a
  case «0» => exact ⟨(0x90, 0xBF), rfl, by show 144 ≤ _; omega, by show _ ≤ 191; omega⟩
  case «4» => exact ⟨(0x80, 0x8F), rfl, by show 128 ≤ _; omega, by show _ ≤ 143; omega⟩
  all_goals exact ⟨(0x80, 0xBF), rfl, by show 128 ≤ _; omega, by show _ ≤ 191; omega⟩

-- ========================================================== the character

/-- The bytes of a character are one piece, and it is that character.
The cases are the four lengths of an encoding; in each, the bits of the
character are taken apart and put together again. -/
theorem pieces_utf8EncodeChar (c : Char) (bs : List UInt8) :
    pieces none (String.utf8EncodeChar c ++ bs) = some c :: pieces none bs := by
  have hvalid : c.val.toNat < 0xD800 ∨ 0xDFFF < c.val.toNat ∧ c.val.toNat < 0x110000 := c.valid
  have hc : Char.ofNat c.val.toNat = c := Char.ofNat_toNat c
  unfold String.utf8EncodeChar
  generalize c.val.toNat = v at hvalid hc
  by_cases h1 : v ≤ 127
  · rw [if_pos h1, List.singleton_append]
    have hascii : UInt8.ofNat v < 0x80 := by
      rw [UInt8.lt_iff_toNat_lt, UInt8.toNat_ofNat']
      show v % 256 < 128
      omega
    have hv : (UInt8.ofNat v).toNat = v := by
      rw [UInt8.toNat_ofNat']
      omega
    rw [pieces_ascii hascii, hv, hc]
  rw [if_neg h1]
  by_cases h2 : v ≤ 2047
  · rw [if_pos h2]
    show pieces none (_ :: _ :: bs) = _
    have hbits : v / 64 * 64 + v % 64 = v := by omega
    rw [pieces_lead (not_ascii (by omega) (by omega)) (lead?_two (by omega) h2),
      pieces_last (between_tail v), tail_bits, hbits, hc]
  rw [if_neg h2]
  by_cases h3 : v ≤ 65535
  · rw [if_pos h3]
    show pieces none (_ :: _ :: _ :: bs) = _
    obtain ⟨range, hlead, hlow, hhigh⟩ := lead?_three (by omega) h3 (by omega)
    have hbits : (v / 4096 * 64 + v / 64 % 64) * 64 + v % 64 = v := by omega
    rw [pieces_lead (not_ascii (by omega) (by omega)) hlead,
      pieces_owed (between_ofNat (by omega) hlow hhigh), tail_bits,
      pieces_last (between_tail v), tail_bits, hbits, hc]
  · rw [if_neg h3]
    show pieces none (_ :: _ :: _ :: _ :: bs) = _
    obtain ⟨range, hlead, hlow, hhigh⟩ := lead?_four (v := v) (by omega) (by omega)
    have hbits : ((v / 262144 * 64 + v / 4096 % 64) * 64 + v / 64 % 64) * 64 + v % 64 = v := by
      omega
    rw [pieces_lead (not_ascii (by omega) (by omega)) hlead,
      pieces_owed (between_ofNat (by omega) hlow hhigh), tail_bits,
      pieces_owed (between_tail _), tail_bits,
      pieces_last (between_tail v), tail_bits, hbits, hc]

/-- The encoding of characters is read back to them, one by one. -/
theorem pieces_utf8 (cs : List Char) :
    pieces none (cs.flatMap String.utf8EncodeChar) = cs.map some := by
  induction cs with
  | nil => rfl
  | cons c cs ih => rw [List.flatMap_cons, pieces_utf8EncodeChar, ih, List.map_cons]

end Utf8

/-- The text of the bytes of a text is that text. -/
theorem ofUtf8?_utf8 (s : String) : ofUtf8? (utf8 s) = some s := by
  have hall : ∀ cs : List Char, (cs.map some).mapM id = some cs := by
    intro cs
    induction cs with
    | nil => rfl
    | cons c cs ih =>
      rw [List.map_cons, List.mapM_cons, ih]
      rfl
  rw [ofUtf8?, utf8, Utf8.pieces_utf8, hall, Option.map_some, String.ofList_toList]

/-- Texts with the same bytes are the same. -/
theorem utf8_injective : Function.Injective utf8 := by
  intro s t h
  have hs : some s = some t := by rw [← ofUtf8?_utf8 s, h, ofUtf8?_utf8 t]
  exact Option.some.inj hs

end CallFlow.Text
