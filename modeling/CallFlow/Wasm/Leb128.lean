/-
LEB128: a number as groups of seven bits, lowest first, every byte but the last
with its high bit set. The encodings here use as few bytes as possible.
-/

namespace CallFlow.Wasm

/-- A natural number in LEB128. -/
def unsigned (n : Nat) : List UInt8 :=
  if n < 128 then [UInt8.ofNat n]
  else UInt8.ofNat (n % 128 + 128) :: unsigned (n / 128)
termination_by n

/-- An integer in LEB128: the last group is the first that leaves only
copies of its highest bit. -/
def signed (n : Int) : List UInt8 :=
  if -64 ≤ n ∧ n < 64 then [UInt8.ofNat (n % 128).toNat]
  else UInt8.ofNat ((n % 128).toNat + 128) :: signed (n / 128)
termination_by n.natAbs

end CallFlow.Wasm
