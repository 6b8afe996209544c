/-
Value types: the closed set of primitive types that slots, constants and
call results carry.

Each type has one name, one code byte in the binary format and one width in
linear memory, so there is no registry to keep: the type is the table.
-/

namespace CallFlow

/-- The type of a slot, a constant or a call result. -/
inductive ValueType where
  /-- A 32-bit integer. -/
  | i32
  /-- A 64-bit integer. -/
  | i64
  /-- A 64-bit floating point number. -/
  | f64
  /-- No value. -/
  | void
  deriving DecidableEq

namespace ValueType

/-- The name a type has in programs and in every output. -/
def name : ValueType → String
  | i32 => "i32"
  | i64 => "i64"
  | f64 => "f64"
  | void => "void"

/-- The byte of a type in the binary format; `void` has that of the
empty block type. -/
def code : ValueType → UInt8
  | i32 => 0x7F
  | i64 => 0x7E
  | f64 => 0x7C
  | void => 0x40

/-- Whether a slot may hold a value of this type. -/
def isStorable : ValueType → Bool
  | void => false
  | _ => true

/-- The number of bytes a value takes in linear memory. -/
def byteWidth : ValueType → Nat
  | i32 => 4
  | i64 => 8
  | f64 => 8
  | void => 0

/-- The type with a given name. -/
def ofName? : String → Option ValueType
  | "i32" => some i32
  | "i64" => some i64
  | "f64" => some f64
  | "void" => some void
  | _ => none

@[simp]
theorem isStorable_eq_true {t : ValueType} : t.isStorable = true ↔ t ≠ void := by
  cases t <;> decide

/-- The names of several types with a comma between. -/
def commaList (types : List ValueType) : String :=
  ", ".intercalate (types.map name)

end ValueType

end CallFlow
