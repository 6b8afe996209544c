/-
Decimal text of doubles.

The digits come from `Shortest`; a `Layout` holds what a format decides for
itself: which numbers are written positionally, how an exponent is marked, which
way a tie goes, and the words for what is not finite.
-/
import CallFlow.Number.Shortest

namespace CallFlow

/-- The decisions of a text format for doubles. -/
structure Layout where
  /-- The least exponent of a leading digit that is written
  positionally. -/
  least : Int
  /-- The first exponent of a leading digit that is not. -/
  bound : Int
  /-- Whether a positive exponent carries a plus sign. -/
  plus : Bool
  /-- Whether a tie between two decimals goes up; otherwise to the even
  one. -/
  tieUp : Bool
  nan : String
  infinity : String
  negativeInfinity : String

namespace Layout

/-- Positional notation, always with a digit on both sides of the point. -/
def positional (d : Shortest.Decimal) : List Char :=
  let cs := d.digitChars
  if 0 ≤ d.exponent then cs ++ List.replicate d.exponent.toNat '0' ++ ['.', '0']
  else if 0 ≤ d.leading then
    let whole := d.leading.toNat + 1
    cs.take whole ++ '.' :: cs.drop whole
  else '0' :: '.' :: List.replicate (-d.leading - 1).toNat '0' ++ cs

/-- Scientific notation: one digit, the others after a point, an
exponent. -/
def scientific (plus : Bool) (d : Shortest.Decimal) : List Char :=
  let mantissa :=
    match d.digitChars with
    | c :: c' :: cs => c :: '.' :: c' :: cs
    | cs => cs
  let sign := if d.leading < 0 then ['-'] else if plus then ['+'] else []
  mantissa ++ 'e' :: sign ++ Nat.toDigits 10 d.leading.natAbs

/-- The text of a double. -/
def text (l : Layout) (x : Binary64) : String :=
  if x.isNaN then l.nan
  else if !x.isFinite then if x.isNegative then l.negativeInfinity else l.infinity
  else
    let sign := if x.isNegative then ['-'] else []
    let magnitude :=
      if x.isZero then ['0', '.', '0']
      else
        let d := Shortest.decimal x l.tieUp
        if l.least ≤ d.leading ∧ d.leading < l.bound then positional d else scientific l.plus d
    String.ofList (sign ++ magnitude)

/-- Numbers in a tree: positional from `1e-5` up to `1e16`, a signed
exponent, ties to the even digit, and `null` for what is not finite. -/
def tree : Layout where
  least := -5
  bound := 16
  plus := true
  tieUp := false
  nan := "null"
  infinity := "null"
  negativeInfinity := "null"

/-- Numbers in a listing: positional from `1e-4` up to `1e16`, no plus
sign, ties up. -/
def listing : Layout where
  least := -4
  bound := 16
  plus := false
  tieUp := true
  nan := "NaN"
  infinity := "inf"
  negativeInfinity := "-inf"

/-- Numbers in the text format: as in a listing, with `nan` for a NaN. -/
def wat : Layout :=
  { listing with nan := "nan" }

end Layout

end CallFlow
