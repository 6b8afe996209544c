/-
Finite maps from keys to values, as a list of bindings.

The newest binding of a key hides the older ones, so to insert is to put a binding
in front. Keys are only ever compared, which keeps every lookup something that can
be computed inside a proof.
-/

namespace CallFlow

/-- A map from keys to values. The newest binding stands first. -/
structure Dictionary (κ α : Type) where
  bindings : List (κ × α) := []
  deriving DecidableEq

namespace Dictionary

variable {κ α : Type}

/-- Gives a key a value, in place of the one it may have. -/
def insert (d : Dictionary κ α) (key : κ) (value : α) : Dictionary κ α where
  bindings := (key, value) :: d.bindings

/-- The map that is collected from pairs: the last pair of a key counts. -/
def ofPairs (pairs : List (κ × α)) : Dictionary κ α :=
  pairs.foldl (fun d p => d.insert p.1 p.2) {}

/-- The value of a key. -/
def get? [BEq κ] (d : Dictionary κ α) (key : κ) : Option α :=
  d.bindings.lookup key

/-- Whether a key has a value. -/
def contains [BEq κ] (d : Dictionary κ α) (key : κ) : Bool :=
  (d.get? key).isSome

end Dictionary

end CallFlow
