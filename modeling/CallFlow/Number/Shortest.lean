/-
The shortest decimal digits of a double.

Every finite double is the nearest double to all the reals of an interval
around it; the ends belong to it when its significand is even. The digits
chosen are those of a decimal in that interval with the fewest digits, and of
several the nearest to the number. On a grid of `n`-digit decimals only the
number's two neighbours can be in question, so the search looks at two
candidates for each `n` and stops at the first hit.
-/
import CallFlow.Number.Binary64

namespace CallFlow.Shortest

/-- A decimal: `digits · 10 ^ exponent`. -/
structure Decimal where
  digits : Nat
  exponent : Int
  deriving DecidableEq

/-- The decimal digits as characters. -/
def Decimal.digitChars (d : Decimal) : List Char :=
  Nat.toDigits 10 d.digits

/-- The exponent of the leading digit. -/
def Decimal.leading (d : Decimal) : Int :=
  d.exponent + d.digitChars.length - 1

/-- The interval of a number in quarters of its last place: the number,
the lower end, the upper end and the exponent of two they are scaled by.
Below a power of two the neighbour is only half as far away. -/
structure Interval where
  value : Nat
  lower : Nat
  upper : Nat
  scale : Int
  closed : Bool

/-- The interval of reals that round to a finite positive number. -/
def interval (x : Binary64) : Interval :=
  let m := x.significand
  let narrow := m == Binary64.hiddenBit && 1 < x.exponentField
  { value := 4 * m
    lower := if narrow then 4 * m - 1 else 4 * m - 2
    upper := 4 * m + 2
    scale := x.scale - 2
    closed := m % 2 == 0 }

/-- The factors that bring `c · 10 ^ k` and `t · 2 ^ s` to a common
scale: `c * decimalFactor k s` stands to `t * binaryFactor k s` as they
do. -/
def decimalFactor (k s : Int) : Nat :=
  Nat.pow 10 k.toNat * Nat.pow 2 (-s).toNat

/-- The companion of `decimalFactor` for the binary side. -/
def binaryFactor (k s : Int) : Nat :=
  Nat.pow 2 s.toNat * Nat.pow 10 (-k).toNat

/-- Whether `c · 10 ^ k` lies in the interval. -/
def Interval.contains (i : Interval) (c : Nat) (k : Int) : Bool :=
  let p := c * decimalFactor k i.scale
  let r := binaryFactor k i.scale
  if i.closed then decide (i.lower * r ≤ p ∧ p ≤ i.upper * r)
  else decide (i.lower * r < p ∧ p < i.upper * r)

/-- The exponent of the leading decimal digit of `t · 2 ^ s`: an
estimate from the binary length, set right by one comparison on either
side. -/
def leadingExponent (t : Nat) (s : Int) : Int :=
  let e := ((t.log2 : Int) + s) * 1233 / 4096
  if decimalFactor (e + 1) s ≤ t * binaryFactor (e + 1) s then e + 1
  else if t * binaryFactor e s < decimalFactor e s then e - 1
  else e

/-- The hit on the grid of multiples of `10 ^ k`, if there is one. Of
two hits the nearer wins, and `tieUp` says whether a tie goes up or to
the even one. -/
def Interval.hit? (i : Interval) (tieUp : Bool) (k : Int) : Option Nat :=
  let p := decimalFactor k i.scale
  let v := i.value * binaryFactor k i.scale
  let low := v / p
  match i.contains low k, i.contains (low + 1) k with
  | true, true =>
    let below := v - low * p
    let above := (low + 1) * p - v
    if below < above ∨ (below = above ∧ !tieUp ∧ low % 2 = 0) then some low else some (low + 1)
  | true, false => some low
  | false, true => some (low + 1)
  | false, false => none

/-- The first hit on the grids of `n`, `n + 1`, … digits, `left` grids
in all. -/
def Interval.search (i : Interval) (tieUp : Bool) (leading : Int) : Nat → Nat → Decimal
  | 0, n =>
    let k := leading - n + 1
    ⟨i.value * binaryFactor k i.scale / decimalFactor k i.scale, k⟩
  | left + 1, n =>
    let k := leading - n + 1
    match i.hit? tieUp k with
    | some d => ⟨d, k⟩
    | none => i.search tieUp leading left (n + 1)

/-- Drops one zero at the end, the trace of a carry out of the leading
digit. -/
def Decimal.trim (d : Decimal) : Decimal :=
  if d.digits % 10 = 0 then ⟨d.digits / 10, d.exponent + 1⟩ else d

/-- The shortest decimal that reads back as the magnitude of a finite
nonzero number. Seventeen digits always suffice. -/
def decimal (x : Binary64) (tieUp : Bool) : Decimal :=
  let i := interval x
  (i.search tieUp (leadingExponent i.value i.scale) 17 1).trim

end CallFlow.Shortest
