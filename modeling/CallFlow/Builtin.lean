/-
The memory helpers that every module has.

A store takes an address and a value and returns the value; a load takes an
address and returns what is there.
-/
import CallFlow.Module

namespace CallFlow

/-- A memory helper. -/
inductive Builtin where
  | storeI32
  | storeF64
  | loadI32
  | loadF64
  deriving DecidableEq

namespace Builtin

/-- All helpers in the order of their indices. -/
def all : List Builtin :=
  [storeI32, storeF64, loadI32, loadF64]

/-- The name of a helper. -/
def name : Builtin → String
  | storeI32 => "store_i32"
  | storeF64 => "store_f64"
  | loadI32 => "load_i32"
  | loadF64 => "load_f64"

/-- The type of the value that is stored or loaded. -/
def type : Builtin → ValueType
  | storeI32 => .i32
  | storeF64 => .f64
  | loadI32 => .i32
  | loadF64 => .f64

/-- Whether the helper writes memory. -/
def isStore : Builtin → Bool
  | storeI32 => true
  | storeF64 => true
  | _ => false

/-- The types of the parameters. -/
def params (b : Builtin) : List ValueType :=
  if b.isStore then [.i32, b.type] else [.i32]

/-- The signature of a helper. -/
def signature (b : Builtin) : Signature :=
  .ofTypes b.params b.type .builtin

/-- The code of a helper. -/
def body (b : Builtin) : List Expr :=
  let address := Expr.get 0 .i32
  if b.isStore then
    [.store b.type address (.get 1 b.type), .returnValue (.get 1 b.type)]
  else [.returnValue (.load b.type address)]

/-- The function that a helper is. -/
def toFunction (b : Builtin) : Function where
  name := b.name
  params := b.params
  locals := []
  result := b.type
  body := b.body
  slotNames := if b.isStore then ["addr", "value"] else ["addr"]
  kind := .builtin

/-- The functions of all helpers. -/
def functions : List Function :=
  all.map toFunction

/-- The helper with a name. -/
def ofName? (name : String) : Option Builtin :=
  all.find? fun b => b.name == name

end Builtin

end CallFlow
