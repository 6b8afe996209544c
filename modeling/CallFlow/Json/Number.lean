/-
Numbers of a JSON text.

A number without fraction and exponent stays an integer as long as it fits a
64-bit word; every other number is a double. Its digits are gathered into a
64-bit significand, digits that no longer fit are dropped, and the significand
is then multiplied or divided by a power of ten in double precision.
-/
import CallFlow.Json.Fault

namespace CallFlow.Json

/-- A number as it was read. -/
inductive Number where
  | natural (n : Nat)
  | negative (n : Int)
  | float (x : Binary64)
  deriving DecidableEq

/-- The number as a value that was met. -/
def Number.found : Number → Found
  | natural n => .integer n
  | negative n => .integer n
  | float x => .float x

namespace Number

/-- The largest significand. -/
def maxSignificand : Nat := 0xFFFFFFFFFFFFFFFF

/-- The value of a decimal digit. -/
def digitValue (c : Char) : Nat := c.toNat - '0'.toNat

/-- Appends digits to a significand while it stays a 64-bit word, and
returns the digits that did not fit. -/
def gather (significand : Nat) : List Char → Nat × List Char
  | [] => (significand, [])
  | c :: cs =>
    let next := significand * 10 + digitValue c
    if maxSignificand < next then (significand, c :: cs) else gather next cs

/-- Divides by `10 ^ n`, in steps of `10 ^ 308` while `n` is larger. -/
def shrink (x : Binary64) (n : Nat) : Binary64 :=
  if n ≤ 308 then x.div (.tenPower n)
  else if x.isZero then x
  else shrink (x.div (.tenPower 308)) (n - 308)
termination_by n

/-- The double `significand · 10 ^ exponent`, unless it is too large. -/
def scaled? (significand : Nat) (exponent : Int) : Option Binary64 :=
  let x := Binary64.ofNat significand
  if exponent < 0 then some (shrink x (-exponent).toNat)
  else if 308 < exponent then if x.isZero then some x else none
  else
    let y := x.mul (.tenPower exponent.toNat)
    if y.isFinite then some y else none

/-- The double with a given sign, or the fault of a number too large. -/
def float? (negative : Bool) (magnitude : Option Binary64) : Except Fault Number :=
  match magnitude with
  | none => .error .numberOutOfRange
  | some x => .ok (.float (if negative then x.negate else x))

/-- The largest exponent that is read digit by digit. -/
def maxExponent : Nat := 0x7FFFFFFF

/-- Appends digits to an exponent; `none` once it is too large. -/
def gatherExponent (exponent : Nat) : List Char → Option Nat
  | [] => some exponent
  | c :: cs =>
    let next := exponent * 10 + digitValue c
    if maxExponent < next then none else gatherExponent next cs

/-- Splits the leading digits off a text. -/
def digits (cs : List Char) : List Char × List Char :=
  (cs.takeWhile Char.isDigit, cs.dropWhile Char.isDigit)

/-- Reads the exponent after its mark, and scales the significand by it. -/
def readExponent (negative : Bool) (significand : Nat) (before : Int) (cs : List Char) :
    Except Fault (Number × List Char) := do
  let (down, cs) :=
    match cs with
    | '+' :: cs => (false, cs)
    | '-' :: cs => (true, cs)
    | cs => (false, cs)
  let (ds, rest) := digits cs
  if ds.isEmpty then .error (if cs.isEmpty then .endOfValue else .invalidNumber)
  else
    match gatherExponent 0 ds with
    | some e =>
      let exponent := if down then before - e else before + e
      return (← float? negative (scaled? significand exponent), rest)
    | none =>
      if significand ≠ 0 ∧ !down then .error .numberOutOfRange
      else return (.float (.zero negative), rest)

/-- Reads what may follow the digits of a float: an exponent or nothing. -/
def readScale (negative : Bool) (significand : Nat) (before : Int) (cs : List Char) :
    Except Fault (Number × List Char) := do
  match cs with
  | 'e' :: cs => readExponent negative significand before cs
  | 'E' :: cs => readExponent negative significand before cs
  | cs => return (← float? negative (scaled? significand before), cs)

/-- Reads the fraction after its point. `before` counts the digits in
front of the point that were dropped. -/
def readFraction (negative : Bool) (significand : Nat) (before : Nat) (cs : List Char) :
    Except Fault (Number × List Char) :=
  let (ds, rest) := digits cs
  if ds.isEmpty then .error (if cs.isEmpty then .endOfValue else .invalidNumber)
  else
    let (significand, dropped) := gather significand ds
    readScale negative significand (before - (ds.length - dropped.length : Nat)) rest

/-- A number that has neither fraction nor exponent. A negative zero and
an integer below the 64-bit range are floats. -/
def integer (negative : Bool) (n : Nat) : Number :=
  if !negative then .natural n
  else if n = 0 ∨ 0x8000000000000000 < n then .float (Binary64.ofNat n).negate
  else .negative (-n)

/-- Reads what may follow the integer digits of a number. -/
def readTail (negative : Bool) (significand : Nat) (dropped : List Char) (cs : List Char) :
    Except Fault (Number × List Char) :=
  match cs with
  | '.' :: cs => readFraction negative significand dropped.length cs
  | 'e' :: cs => readExponent negative significand dropped.length cs
  | 'E' :: cs => readExponent negative significand dropped.length cs
  | cs =>
    if dropped.isEmpty then .ok (integer negative significand, cs)
    else readScale negative significand dropped.length cs

/-- Reads a number after its sign. -/
def read (negative : Bool) (cs : List Char) : Except Fault (Number × List Char) :=
  let (ds, rest) := digits cs
  match ds with
  | [] => .error (if cs.isEmpty then .endOfValue else .invalidNumber)
  | '0' :: _ :: _ => .error .invalidNumber
  | ds =>
    let (significand, dropped) := gather 0 ds
    readTail negative significand dropped rest

/-- Passes over the digits, of which there must be one. -/
def skipDigits (cs : List Char) : Except Fault (List Char) :=
  let (ds, rest) := digits cs
  if ds.isEmpty then .error .invalidNumber else .ok rest

/-- Passes over an exponent, if there is one. -/
def skipExponent (cs : List Char) : Except Fault (List Char) :=
  match cs with
  | c :: cs =>
    if c = 'e' ∨ c = 'E' then
      match cs with
      | '+' :: cs => skipDigits cs
      | '-' :: cs => skipDigits cs
      | cs => skipDigits cs
    else .ok (c :: cs)
  | [] => .ok []

/-- Passes over a number after its sign, however large it is. -/
def skip (cs : List Char) : Except Fault (List Char) := do
  let (ds, rest) := digits cs
  match ds with
  | [] => .error .invalidNumber
  | '0' :: _ :: _ => .error .invalidNumber
  | _ =>
    match rest with
    | '.' :: rest => skipExponent (← skipDigits rest)
    | rest => skipExponent rest

end Number

end CallFlow.Json
