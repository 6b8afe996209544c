/-
The grammar of the binary format, as readers.

A reader takes a value off the front of the bytes or fails. The grammar is that of the
format itself: numbers may be longer than they need to be, sections may be missing, and
custom sections may stand anywhere. Only the value types, instructions and kinds of
section that a `Binary` can hold are known. Every size and every count is read and must
be met: the content of a section is exactly as long as its size says.
-/
import CallFlow.Wasm.Binary
import Mathlib.Algebra.Group.Nat.Defs
import Mathlib.Data.List.Basic

namespace CallFlow.Wasm

/-- What takes a value off the front of the bytes and leaves the rest. -/
abbrev Reader := StateT (List UInt8) Option

namespace Reader

-- =============================================================== pieces

/-- One byte. -/
def byte : Reader UInt8
  | [] => none
  | b :: rest => some (b, rest)

/-- A byte that must be there. -/
def expect (b : UInt8) : Reader Unit := do
  if (← byte) = b then return else failure

/-- As many bytes as are asked for. -/
def take (n : Nat) : Reader (List UInt8) := fun bytes =>
  if n ≤ bytes.length then some (bytes.take n, bytes.drop n) else none

/-- The value of bytes that hold nothing else. -/
def whole {α : Type} (r : Reader α) (bytes : List UInt8) : Option α :=
  match r bytes with
  | some (x, []) => some x
  | _ => none

/-- Values up to the end of the bytes, none of them empty. -/
def untilEnd {α : Type} (r : Reader α) (bytes : List UInt8) : Option (List α) :=
  match bytes with
  | [] => some []
  | b :: bytes =>
    match r (b :: bytes) with
    | none => none
    | some (x, rest) =>
      if rest.length < (b :: bytes).length then (untilEnd r rest).map (x :: ·) else none
termination_by bytes.length
decreasing_by assumption

/-- The same reading a number of times. -/
def times {α : Type} (r : Reader α) : Nat → Reader (List α)
  | 0 => return []
  | n + 1 => do
    let x ← r
    let xs ← times r n
    return x :: xs

-- ============================================================== numbers

/-- An unsigned number of at most so many bits. -/
def natural (bits : Nat) : Reader Nat
  | [] => none
  | b :: rest =>
    if b.toNat < 128 then
      if b.toNat < 2 ^ bits then some (b.toNat, rest) else none
    else if 7 < bits then
      match natural (bits - 7) rest with
      | some (high, rest) => some (128 * high + (b.toNat - 128), rest)
      | none => none
    else none

/-- A signed number of at most so many bits. -/
def integer (bits : Nat) : Reader Int
  | [] => none
  | b :: rest =>
    if b.toNat < 64 then
      if b.toNat < 2 ^ (bits - 1) then some (b.toNat, rest) else none
    else if b.toNat < 128 then
      if 128 ≤ b.toNat + 2 ^ (bits - 1) then some ((b.toNat : Int) - 128, rest) else none
    else if 7 < bits then
      match integer (bits - 7) rest with
      | some (high, rest) => some (128 * high + ((b.toNat : Int) - 128), rest)
      | none => none
    else none

/-- A size, a count or an index. -/
def u32 : Reader Nat :=
  natural 32

/-- Eight bytes, the lowest first. -/
def word : Reader UInt64 := do
  let bytes ← take 8
  return UInt64.ofNat (bytes.foldr (fun b n => b.toNat + 256 * n) 0)

-- ============================================================ sequences

/-- A count and then as many values. -/
def listOf {α : Type} (r : Reader α) : Reader (List α) := do
  times r (← u32)

/-- A size and then as many bytes. -/
def blob : Reader (List UInt8) := do
  take (← u32)

/-- A size and then a value that takes as many bytes. -/
def sized {α : Type} (r : Reader α) : Reader α := do
  let content ← blob
  StateT.lift (whole r content)

/-- A text. -/
def name : Reader String := do
  let bytes ← blob
  StateT.lift (Text.ofUtf8? bytes)

-- ================================================================ types

/-- A type of values. -/
def valueType : Reader ValueType := do
  match ← byte with
  | 0x7F => return .i32
  | 0x7E => return .i64
  | 0x7C => return .f64
  | _ => failure

/-- A function type. -/
def functionType : Reader FunctionType := do
  expect 0x60
  let params ← listOf valueType
  let results ← listOf valueType
  return { params, results }

-- ========================================================= instructions

/-- The alignment of a memory access, the offset of which must be zero. -/
def access : Reader Nat := do
  let alignment ← u32
  if (← u32) = 0 then return alignment else failure

/-- An instruction. Blocks take no operands and leave none. -/
def instruction : Reader Instruction := do
  match ← byte with
  | 0x02 => do
    expect 0x40
    return .block
  | 0x03 => do
    expect 0x40
    return .loop
  | 0x0B => return .stop
  | 0x0D => return .branchIf (← u32)
  | 0x0F => return .ret
  | 0x10 => return .call (← u32)
  | 0x20 => return .localGet (← u32)
  | 0x21 => return .localSet (← u32)
  | 0x28 => return .i32Load (← access)
  | 0x2B => return .f64Load (← access)
  | 0x36 => return .i32Store (← access)
  | 0x39 => return .f64Store (← access)
  | 0x41 => return .i32Const (Int32.ofInt (← integer 32))
  | 0x42 => return .i64Const (Int64.ofInt (← integer 64))
  | 0x44 => return .f64Const ⟨← word⟩
  | 0x45 => return .i32Eqz
  | _ => failure

/-- The number of open blocks behind an instruction. -/
def depthBehind (depth : Nat) : Instruction → Nat
  | .block => depth + 1
  | .loop => depth + 1
  | .stop => depth - 1
  | _ => depth

/-- Instructions up to the end that closes them, inside so many open
blocks. -/
def instructionsIn (depth : Nat) (bytes : List UInt8) : Option (List Instruction × List UInt8) :=
  match instruction bytes with
  | none => none
  | some (i, rest) =>
    if rest.length < bytes.length then
      if i = .stop ∧ depth = 0 then some ([.stop], rest)
      else (instructionsIn (depthBehind depth i) rest).map fun (is, rest) => (i :: is, rest)
    else none
termination_by bytes.length

/-- The instructions of an expression and its end. -/
def expression : Reader (List Instruction) :=
  instructionsIn 0

-- ============================================================== entries

/-- An imported function. -/
def importEntry : Reader ImportEntry := do
  let module ← name
  let base ← name
  expect 0x00
  return { module, base, type := ← u32 }

/-- The limits of a memory: the initial pages, and the maximum if there
is one. -/
def limits : Reader (Nat × Option Nat) := do
  match ← byte with
  | 0x00 => return (← u32, none)
  | 0x01 => do
    let initial ← u32
    return (initial, some (← u32))
  | _ => failure

/-- What is exported. -/
def exportTarget : Reader ExportTarget := do
  match ← byte with
  | 0x00 => return .function (← u32)
  | 0x02 => do
    if (← u32) = 0 then return .memory else failure
  | _ => failure

/-- An export. -/
def exportEntry : Reader ExportEntry := do
  let name ← name
  return { name, target := ← exportTarget }

/-- A run of locals. -/
def localRun : Reader (Nat × ValueType) := do
  let count ← u32
  return (count, ← valueType)

/-- The code of a function behind its size. -/
def codeEntry : Reader CodeEntry := sized do
  let locals ← listOf localRun
  return { locals, instructions := ← expression }

/-- Bytes for the first memory at a constant offset. -/
def dataEntry : Reader DataEntry := do
  expect 0x00
  match ← expression with
  | [.i32Const offset, .stop] => return { offset, bytes := ← blob }
  | _ => failure

/-- A numbered name. -/
def numberedName : Reader (Nat × String) := do
  let index ← u32
  return (index, ← name)

/-- The names of the slots of a function. -/
def slotNames : Reader (Nat × List (Nat × String)) := do
  let index ← u32
  return (index, ← listOf numberedName)

end Reader

-- ============================================================= sections

/-- A part of the section with names. -/
inductive NamePart where
  | functions (names : List (Nat × String))
  | locals (names : List (Nat × List (Nat × String)))
  deriving DecidableEq

/-- A section of a module. -/
inductive Section where
  | types (types : List FunctionType)
  | imports (imports : List ImportEntry)
  | functions (types : List Nat)
  | memories (limits : List (Nat × Option Nat))
  | exports (exports : List ExportEntry)
  | codes (codes : List CodeEntry)
  | data (segments : List DataEntry)
  /-- The custom section with names. -/
  | names (parts : List NamePart)
  /-- Any other custom section. -/
  | custom (name : String) (content : List UInt8)
  deriving DecidableEq

/-- The number of a section; custom sections share one. -/
def Section.id : Section → Nat
  | types _ => 1
  | imports _ => 2
  | functions _ => 3
  | memories _ => 5
  | exports _ => 7
  | codes _ => 10
  | data _ => 11
  | names _ => 0
  | custom _ _ => 0

namespace Reader

/-- A part of the section with names. -/
def namePart : Reader NamePart := do
  match ← byte with
  | 1 => return .functions (← sized (listOf numberedName))
  | 2 => return .locals (← sized (listOf slotNames))
  | _ => failure

/-- The content of a custom section. -/
def custom (bytes : List UInt8) : Option Section := do
  let (title, content) ← name bytes
  if title = "name" then return .names (← untilEnd namePart content)
  else return .custom title content

/-- A section: its number, its size and its content. -/
def moduleSection : Reader Section := do
  match ← byte with
  | 0 => do
    let content ← blob
    StateT.lift (custom content)
  | 1 => return .types (← sized (listOf functionType))
  | 2 => return .imports (← sized (listOf importEntry))
  | 3 => return .functions (← sized (listOf u32))
  | 5 => return .memories (← sized (listOf limits))
  | 7 => return .exports (← sized (listOf exportEntry))
  | 10 => return .codes (← sized (listOf codeEntry))
  | 11 => return .data (← sized (listOf dataEntry))
  | _ => failure

end Reader

/-- The sections of a module. Those that are not custom come in the
order of their numbers, each at most once. -/
def decode (bytes : List UInt8) : Option (List Section) := do
  let (start, rest) ← Reader.take 8 bytes
  let sections ← Reader.untilEnd Reader.moduleSection rest
  if start = [0x00, 0x61, 0x73, 0x6D, 0x01, 0x00, 0x00, 0x00]
      ∧ ((sections.map Section.id).filter (· ≠ 0)).Pairwise (· < ·) then
    return sections
  else failure

end CallFlow.Wasm
