/-
Double-precision numbers as 64-bit patterns.

A finite number is `significand · 2 ^ scale`, both read off the pattern, so
everything about it is exact arithmetic on `Nat` and `Int`. `ofRatio` is the
one rounding: a quotient of naturals goes to the nearest double, a tie to the
one with an even significand. The arithmetic here rounds through it once.
-/

namespace CallFlow

/-- A double-precision number, held as its bit pattern. Two patterns are
equal when every bit is, so `0.0` and `-0.0` differ and a NaN equals
itself. -/
structure Binary64 where
  bits : UInt64
  deriving DecidableEq

namespace Binary64

-- ============================================================ the fields

/-- The weight of the sign bit. -/
def signBit : Nat := 0x8000000000000000

/-- The weight of the bit above the fraction, where the exponent starts. -/
def hiddenBit : Nat := 0x10000000000000

/-- The sign bit. -/
def isNegative (x : Binary64) : Bool :=
  signBit ≤ x.bits.toNat

/-- The eleven bits of the exponent. -/
def exponentField (x : Binary64) : Nat :=
  x.bits.toNat / hiddenBit % 2048

/-- The fifty-two bits of the fraction. -/
def fractionField (x : Binary64) : Nat :=
  x.bits.toNat % hiddenBit

/-- Neither infinite nor a NaN. -/
def isFinite (x : Binary64) : Bool :=
  x.exponentField < 2047

/-- Not a number. -/
def isNaN (x : Binary64) : Bool :=
  !x.isFinite && x.fractionField != 0

/-- Either of the two zeros. -/
def isZero (x : Binary64) : Bool :=
  x.exponentField == 0 && x.fractionField == 0

/-- The integer significand of a finite number; numbers with an exponent
field of zero lack the leading bit. -/
def significand (x : Binary64) : Nat :=
  if x.exponentField = 0 then x.fractionField else hiddenBit + x.fractionField

/-- The power of two that scales the significand. -/
def scale (x : Binary64) : Int :=
  (max x.exponentField 1 : Nat) - 1075

-- ====================================================== building a number

/-- The number with the given sign and the given 63 lower bits. -/
def ofMagnitude (negative : Bool) (magnitude : Nat) : Binary64 :=
  ⟨UInt64.ofNat ((if negative then signBit else 0) + magnitude)⟩

/-- An infinity. -/
def infinity (negative : Bool) : Binary64 :=
  ofMagnitude negative (2047 * hiddenBit)

/-- A zero. -/
def zero (negative : Bool) : Binary64 :=
  ofMagnitude negative 0

/-- The same number with the sign bit flipped. -/
def negate (x : Binary64) : Binary64 :=
  ofMagnitude (!x.isNegative) (x.bits.toNat % signBit)

/-- The quotient rounded to the nearest natural, a tie to the even one. -/
def roundQuotient (num den : Nat) : Nat :=
  let q := num / den
  let r := num % den
  if 2 * r > den ∨ (2 * r = den ∧ q % 2 = 1) then q + 1 else q

/-- `num / den / 2 ^ e` as a quotient of naturals. -/
def scaledQuotient (num den : Nat) (e : Int) : Nat × Nat :=
  if 0 ≤ e then (num, den * Nat.pow 2 e.toNat) else (num * Nat.pow 2 (-e).toNat, den)

/-- The exponent at which `num / den` has a significand of 53 bits, or
the least exponent if it is too small for that. -/
def ratioScale (num den : Nat) : Int :=
  let k : Int := (num.log2 : Int) - den.log2
  let (n, d) := scaledQuotient num den k
  max (if d ≤ n then k - 52 else k - 53) (-1074)

/-- The double nearest to `num / den`, a tie to the even significand,
and an infinity past the largest double. The denominator is not zero. -/
def ofRatio (negative : Bool) (num den : Nat) : Binary64 :=
  if num = 0 then zero negative
  else
    let e := ratioScale num den
    let (n, d) := scaledQuotient num den e
    let m := roundQuotient n d
    let magnitude := if m < hiddenBit then m else (e + 1074).toNat * hiddenBit + m
    if 2047 * hiddenBit ≤ magnitude then infinity negative else ofMagnitude negative magnitude

/-- The double nearest to a natural. -/
def ofNat (n : Nat) : Binary64 :=
  ofRatio false n 1

/-- The double nearest to an integer. -/
def ofInt (n : Int) : Binary64 :=
  ofRatio (n < 0) n.natAbs 1

/-- The double nearest to a power of ten. -/
def tenPower (k : Nat) : Binary64 :=
  ofNat (Nat.pow 10 k)

-- ============================================================= arithmetic

/-- The magnitude of a finite number as a quotient of naturals. -/
def ratio (x : Binary64) : Nat × Nat :=
  if 0 ≤ x.scale then (x.significand * Nat.pow 2 x.scale.toNat, 1)
  else (x.significand, Nat.pow 2 (-x.scale).toNat)

/-- The rounded product of two finite numbers. -/
def mul (x y : Binary64) : Binary64 :=
  ofRatio (x.isNegative != y.isNegative) (x.ratio.1 * y.ratio.1) (x.ratio.2 * y.ratio.2)

/-- The rounded quotient of two finite numbers, the second not zero. -/
def div (x y : Binary64) : Binary64 :=
  ofRatio (x.isNegative != y.isNegative) (x.ratio.1 * y.ratio.2) (x.ratio.2 * y.ratio.1)

end Binary64

end CallFlow
