/-
The binary format: the sections of a module as data, and their bytes.
-/
import CallFlow.Wasm.Instruction

namespace CallFlow.Wasm

-- ======================================================== the sections

/-- A function type. It has one result or none. -/
structure FunctionType where
  params : List ValueType
  results : List ValueType
  deriving DecidableEq

/-- The function type of declared types, in which `void` has no place. -/
def FunctionType.ofTypes (params : List ValueType) (result : ValueType) : FunctionType where
  params := params.filter ValueType.isStorable
  results := [result].filter ValueType.isStorable

/-- An imported function. -/
structure ImportEntry where
  module : String
  base : String
  type : Nat
  deriving DecidableEq

/-- An exported thing. -/
inductive ExportTarget where
  | function (index : Nat)
  | memory
  deriving DecidableEq

/-- An export. -/
structure ExportEntry where
  name : String
  target : ExportTarget
  deriving DecidableEq

/-- The code of a function: its locals as runs of one type, and its
instructions, the last of which ends the body. -/
structure CodeEntry where
  locals : List (Nat × ValueType)
  instructions : List Instruction
  deriving DecidableEq

/-- Bytes to be copied to an offset. -/
structure DataEntry where
  offset : Int32
  bytes : List UInt8
  deriving DecidableEq

/-- Names for readers: of functions by index, and of their slots by
index. -/
structure Names where
  functions : List (Nat × String)
  locals : List (Nat × List (Nat × String))
  deriving DecidableEq

/-- All sections of a module, the names being optional. -/
structure Binary where
  types : List FunctionType
  imports : List ImportEntry
  functions : List Nat
  initialPages : UInt32
  maximumPages : UInt32
  exports : List ExportEntry
  codes : List CodeEntry
  data : List DataEntry
  names : Option Names
  deriving DecidableEq

-- ================================================================ bytes

/-- A count and then the items. -/
def vector {α : Type} (encode : α → List UInt8) (items : List α) : List UInt8 :=
  unsigned items.length ++ items.flatMap encode

/-- Bytes behind their number. -/
def sized (bytes : List UInt8) : List UInt8 :=
  unsigned bytes.length ++ bytes

/-- A text as its bytes behind their number. -/
def text (s : String) : List UInt8 :=
  sized (Text.utf8 s)

/-- A section: its number, its size and its content. -/
def sectionOf (id : UInt8) (content : List UInt8) : List UInt8 :=
  id :: sized content

/-- A value type. -/
def typeByte (t : ValueType) : List UInt8 :=
  [t.code]

namespace FunctionType

/-- The bytes of a function type. -/
def encode (t : FunctionType) : List UInt8 :=
  0x60 :: vector typeByte t.params ++ vector typeByte t.results

end FunctionType

/-- The bytes of an import. -/
def ImportEntry.encode (i : ImportEntry) : List UInt8 :=
  text i.module ++ text i.base ++ 0x00 :: unsigned i.type

/-- The bytes of an exported thing. -/
def ExportTarget.encode : ExportTarget → List UInt8
  | function index => 0x00 :: unsigned index
  | memory => 0x02 :: unsigned 0

/-- The bytes of an export. -/
def ExportEntry.encode (e : ExportEntry) : List UInt8 :=
  text e.name ++ e.target.encode

/-- The bytes of a run of locals. -/
def localRun (run : Nat × ValueType) : List UInt8 :=
  unsigned run.1 ++ typeByte run.2

/-- The bytes of the code of a function. -/
def CodeEntry.encode (c : CodeEntry) : List UInt8 :=
  sized (vector localRun c.locals ++ c.instructions.flatMap Instruction.encode)

/-- The bytes of a data entry. -/
def DataEntry.encode (d : DataEntry) : List UInt8 :=
  0x00 :: (Instruction.i32Const d.offset).encode ++ Instruction.stop.encode ++ sized d.bytes

/-- The bytes of a numbered name. -/
def numberedName (n : Nat × String) : List UInt8 :=
  unsigned n.1 ++ text n.2

/-- The bytes of the names of the slots of a function. -/
def slotNames (n : Nat × List (Nat × String)) : List UInt8 :=
  unsigned n.1 ++ vector numberedName n.2

/-- The bytes of the custom section with names. -/
def Names.encode (n : Names) : List UInt8 :=
  sectionOf 0 (text "name" ++ sectionOf 1 (vector numberedName n.functions)
    ++ sectionOf 2 (vector slotNames n.locals))

/-- The limits of the memory, with a maximum. -/
def Binary.limits (b : Binary) : List UInt8 :=
  0x01 :: unsigned b.initialPages.toNat ++ unsigned b.maximumPages.toNat

/-- The magic number and the version. -/
def preamble : List UInt8 :=
  [0x00, 0x61, 0x73, 0x6D, 0x01, 0x00, 0x00, 0x00]

/-- The bytes of a module. -/
def Binary.encode (b : Binary) : List UInt8 :=
  preamble
    ++ sectionOf 1 (vector FunctionType.encode b.types)
    ++ sectionOf 2 (vector ImportEntry.encode b.imports)
    ++ sectionOf 3 (vector unsigned b.functions)
    ++ sectionOf 5 (vector id [b.limits])
    ++ sectionOf 7 (vector ExportEntry.encode b.exports)
    ++ sectionOf 10 (vector CodeEntry.encode b.codes)
    ++ sectionOf 11 (vector DataEntry.encode b.data)
    ++ (match b.names with
      | some n => n.encode
      | none => [])

end CallFlow.Wasm
