/-
Project settings, as they stand in a TOML document.

A settings document has a package with a name and a version, and may set limits
of the memory and where output goes. Members without a meaning are ignored.
-/
import CallFlow.Module
import CallFlow.Toml.Quoted
import CallFlow.Toml.Reader

namespace CallFlow

-- ========================================================= output formats

/-- A form in which a module is written. -/
inductive EmitKind where
  | wasm
  | wat
  /-- The listing of the module. -/
  | ir
  deriving DecidableEq

namespace EmitKind

/-- The name of a format, which is also the extension of its files. -/
def name : EmitKind → String
  | wasm => "wasm"
  | wat => "wat"
  | ir => "ir"

/-- The format with a name. -/
def ofName? : String → Option EmitKind
  | "wasm" => some wasm
  | "wat" => some wat
  | "ir" => some ir
  | _ => none

/-- What is said about a name that no format has. -/
def unknownName (name : String) : String :=
  "unknown output format '" ++ name ++ "' (expected wasm, wat or ir)"

end EmitKind

-- =========================================================== the settings

/-- What a project is called. -/
structure Package where
  name : String
  version : String := "0.1.0"
  deriving DecidableEq

/-- The limits of the memory, and the name it is exported under. -/
structure MemorySettings where
  initialPages : UInt32 := 1
  maximumPages : UInt32 := 256
  exportName : String := "_mem"
  deriving DecidableEq

/-- What is written, and the directory that it goes to. -/
structure BuildSettings where
  emit : EmitKind := .wasm
  outDir : String := "target"
  deriving DecidableEq

/-- The settings of a project. -/
structure Settings where
  package : Package
  memory : MemorySettings := {}
  build : BuildSettings := {}
  deriving DecidableEq

/-- Why settings cannot be used. -/
inductive SettingsFault where
  /-- A file that cannot be read or is not text. -/
  | unreadable (path : String)
  /-- A text that is no settings document. -/
  | unparsable (path : String)
  | initialAboveMaximum (initial maximum : UInt32)
  | emptyExport
  deriving DecidableEq

/-- The wording of a settings fault. -/
def SettingsFault.message : SettingsFault → String
  | unreadable path => "Failed to read " ++ path
  | unparsable path => "Failed to parse " ++ path
  | initialAboveMaximum i m =>
    "memory.initial_pages (" ++ toString i.toNat ++ ") exceeds memory.maximum_pages ("
      ++ toString m.toNat ++ ")"
  | emptyExport => "memory.export must not be empty"

-- ================================================================ reading

namespace Settings

/-- The parts of a record: by name, or in order. -/
inductive Parts where
  | named (members : List (String × Toml.Value))
  | ordered (items : List Toml.Value)

/-- The part with a name and a position. -/
def Parts.get? (p : Parts) (position : Nat) (name : String) : Option Toml.Value :=
  match p with
  | named members => members.lookup name
  | ordered items => items[position]?

/-- The parts of a value. A date has parts, but none that a record asks
for. -/
def partsOf? : Toml.Value → Option Parts
  | .table members => some (.named members)
  | .list items => some (.ordered items)
  | .moment _ => some (.named [])
  | _ => none

/-- A text. -/
def text? : Toml.Value → Option String
  | .string s => some s
  | _ => none

/-- A number of pages. -/
def pages? : Toml.Value → Option UInt32
  | .integer n =>
    if 0 ≤ n.toInt ∧ n.toInt < 0x100000000 then some (UInt32.ofNat n.toInt.toNat) else none
  | _ => none

/-- Whether a value holds nothing. -/
def isEmptyValue : Toml.Value → Bool
  | .table [] => true
  | .list [] => true
  | _ => false

/-- An output format: its name, or a table with its name and an empty
value. -/
def emitKind? : Toml.Value → Option EmitKind
  | .string s => EmitKind.ofName? s
  | .table [(name, v)] => if isEmptyValue v then EmitKind.ofName? name else none
  | _ => none

/-- A part that may be left out. -/
def optional {α : Type} (read : Toml.Value → Option α) (default : α) :
    Option Toml.Value → Option α
  | none => some default
  | some v => read v

/-- A package. -/
def package? (v : Toml.Value) : Option Package := do
  let parts ← partsOf? v
  return { name := ← text? (← parts.get? 0 "name")
           version := ← text? (← parts.get? 1 "version") }

/-- Memory settings. -/
def memory? (v : Toml.Value) : Option MemorySettings := do
  let parts ← partsOf? v
  let default : MemorySettings := {}
  return { initialPages := ← optional pages? default.initialPages (parts.get? 0 "initial_pages")
           maximumPages := ← optional pages? default.maximumPages (parts.get? 1 "maximum_pages")
           exportName := ← optional text? default.exportName (parts.get? 2 "export") }

/-- Build settings. -/
def build? (v : Toml.Value) : Option BuildSettings := do
  let parts ← partsOf? v
  let default : BuildSettings := {}
  return { emit := ← optional emitKind? default.emit (parts.get? 0 "emit")
           outDir := ← optional text? default.outDir (parts.get? 1 "out_dir") }

/-- The settings in a TOML document. -/
def ofText? (text : String) : Option Settings := do
  let members ← Toml.read text
  return { package := ← package? (← members.lookup "package")
           memory := ← optional memory? {} (members.lookup "memory")
           build := ← optional build? {} (members.lookup "build") }

/-- The limits of the memory must be in order, and it must have a name. -/
def check (s : Settings) : Except SettingsFault Unit :=
  if s.memory.maximumPages < s.memory.initialPages then
    .error (.initialAboveMaximum s.memory.initialPages s.memory.maximumPages)
  else if s.memory.exportName.isEmpty then .error .emptyExport
  else .ok ()

/-- The settings in a file with the given content. -/
def load (path : String) (content : Option (List UInt8)) : Except SettingsFault Settings :=
  match content.bind Text.ofUtf8? with
  | none => .error (.unreadable path)
  | some text =>
    match ofText? text with
    | none => .error (.unparsable path)
    | some s => do
      s.check
      return s

/-- The memory that modules get. -/
def toMemory (s : Settings) : Memory where
  initialPages := s.memory.initialPages
  maximumPages := s.memory.maximumPages
  exportName := s.memory.exportName

-- ================================================================ writing

/-- How settings are written. -/
def text (s : Settings) : String :=
  "[package]\n"
    ++ "name = " ++ Toml.quoted s.package.name ++ "\n"
    ++ "version = " ++ Toml.quoted s.package.version ++ "\n"
    ++ "\n[memory]\n"
    ++ "initial_pages = " ++ toString s.memory.initialPages.toNat ++ "\n"
    ++ "maximum_pages = " ++ toString s.memory.maximumPages.toNat ++ "\n"
    ++ "export = " ++ Toml.quoted s.memory.exportName ++ "\n"
    ++ "\n[build]\n"
    ++ "emit = " ++ Toml.quoted s.build.emit.name ++ "\n"
    ++ "out_dir = " ++ Toml.quoted s.build.outDir ++ "\n"

end Settings

end CallFlow
