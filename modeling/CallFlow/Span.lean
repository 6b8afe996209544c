/-
Source positions: a location is a line, a column and a byte offset, and a
span is the stretch between two locations.

Every number is a 64-bit word, the range in which a tree may state one.
-/

namespace CallFlow

/-- A place in a source text. -/
structure Location where
  line : UInt64
  column : UInt64
  offset : UInt64 := 0
  deriving DecidableEq

/-- The stretch of source text from `start` up to `stop`. -/
structure Span where
  start : Location
  stop : Location
  deriving DecidableEq

namespace Span

/-- The span between two byte offsets, with no line or column known. -/
def ofRange (start stop : UInt64) : Span :=
  ⟨⟨0, 0, start⟩, ⟨0, 0, stop⟩⟩

/-- The length in bytes; a span that ends before it starts has none. -/
def length (s : Span) : Nat :=
  s.stop.offset.toNat - s.start.offset.toNat

/-- Whether the span covers no byte. -/
def isEmpty (s : Span) : Bool :=
  s.length == 0

end Span

end CallFlow
