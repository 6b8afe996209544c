/-
UTF-8, one byte at a time.

The decoder carries what the bytes so far have promised: the bits collected
and, for each byte still owed, the range it must lie in. A byte outside its
range ends the sequence there and is looked at again as the start of the next,
so each longest broken piece is reported once.
-/

namespace CallFlow.Text

/-- The bytes of a text. -/
def utf8 (s : String) : List UInt8 :=
  s.toList.flatMap String.utf8EncodeChar

/-- A sequence under way: the bits so far and the ranges of the bytes
owed. -/
structure Utf8.Pending where
  bits : Nat
  owed : List (UInt8 × UInt8)

/-- The range of a byte that only continues a sequence. -/
def Utf8.tail : UInt8 × UInt8 := (0x80, 0xBF)

/-- What the first byte of a sequence of several bytes promises. The
range of the second byte leaves out overlong forms, surrogates and
values past the last code point. -/
def Utf8.lead? (b : UInt8) : Option Utf8.Pending :=
  if 0xC2 ≤ b ∧ b ≤ 0xDF then some ⟨b.toNat % 32, [Utf8.tail]⟩
  else if b = 0xE0 then some ⟨0, [(0xA0, 0xBF), Utf8.tail]⟩
  else if b = 0xED then some ⟨13, [(0x80, 0x9F), Utf8.tail]⟩
  else if 0xE1 ≤ b ∧ b ≤ 0xEF then some ⟨b.toNat % 16, [Utf8.tail, Utf8.tail]⟩
  else if b = 0xF0 then some ⟨0, [(0x90, 0xBF), Utf8.tail, Utf8.tail]⟩
  else if 0xF1 ≤ b ∧ b ≤ 0xF3 then some ⟨b.toNat % 8, [Utf8.tail, Utf8.tail, Utf8.tail]⟩
  else if b = 0xF4 then some ⟨4, [(0x80, 0x8F), Utf8.tail, Utf8.tail]⟩
  else none

/-- The pieces that a byte completes from between characters, and what
is then under way. A piece that is no character is `none`. -/
def Utf8.start (b : UInt8) : List (Option Char) × Option Utf8.Pending :=
  if b < 0x80 then ([some (Char.ofNat b.toNat)], none)
  else
    match Utf8.lead? b with
    | some p => ([], some p)
    | none => ([none], none)

/-- The pieces that a byte completes, and what is then under way. -/
def Utf8.step (b : UInt8) : Option Utf8.Pending → List (Option Char) × Option Utf8.Pending
  | none => Utf8.start b
  | some ⟨bits, []⟩ => (some (Char.ofNat bits) :: (Utf8.start b).1, (Utf8.start b).2)
  | some ⟨bits, (low, high) :: owed⟩ =>
    if low ≤ b ∧ b ≤ high then
      let bits := bits * 64 + b.toNat % 64
      if owed.isEmpty then ([some (Char.ofNat bits)], none) else ([], some ⟨bits, owed⟩)
    else (none :: (Utf8.start b).1, (Utf8.start b).2)

/-- The pieces of a byte sequence: its characters, and `none` for each
longest piece that is none. -/
def Utf8.pieces : Option Utf8.Pending → List UInt8 → List (Option Char)
  | none, [] => []
  | some _, [] => [none]
  | under, b :: bs =>
    let (done, under) := Utf8.step b under
    done ++ Utf8.pieces under bs

/-- The text whose bytes these are, if there is one. -/
def ofUtf8? (bytes : List UInt8) : Option String :=
  ((Utf8.pieces none bytes).mapM id).map String.ofList

/-- The text of the bytes, with a replacement character for each broken
piece. -/
def ofUtf8Lossy (bytes : List UInt8) : String :=
  String.ofList ((Utf8.pieces none bytes).map (·.getD '�'))

end CallFlow.Text
