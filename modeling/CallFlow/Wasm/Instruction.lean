/-
Instructions of the stack machine, and the instructions of structured code.

Operands come before their operator. A branch counts the labels between itself
and its target, the innermost being zero.
-/
import CallFlow.Module
import CallFlow.Wasm.Leb128

namespace CallFlow.Wasm

/-- An instruction. -/
inductive Instruction where
  | i32Const (value : Int32)
  | i64Const (value : Int64)
  | f64Const (value : Binary64)
  | localGet (index : Nat)
  | localSet (index : Nat)
  | call (function : Nat)
  /-- Memory accesses state the alignment as an exponent of two. -/
  | i32Load (alignment : Nat)
  | f64Load (alignment : Nat)
  | i32Store (alignment : Nat)
  | f64Store (alignment : Nat)
  | ret
  | block
  | loop
  | stop
  | branchIf (depth : Nat)
  | i32Eqz
  deriving DecidableEq

namespace Instruction

/-- The eight bytes of a word, lowest first. -/
def littleEndian (w : UInt64) : List UInt8 :=
  (List.range 8).map fun i => UInt8.ofNat (w.toNat / Nat.pow 256 i)

/-- The bytes of a memory access: code, alignment and offset zero. -/
def access (code : UInt8) (alignment : Nat) : List UInt8 :=
  code :: unsigned alignment ++ unsigned 0

/-- The bytes of an instruction. -/
def encode : Instruction → List UInt8
  | i32Const v => 0x41 :: signed v.toInt
  | i64Const v => 0x42 :: signed v.toInt
  | f64Const v => 0x44 :: littleEndian v.bits
  | localGet i => 0x20 :: unsigned i
  | localSet i => 0x21 :: unsigned i
  | call f => 0x10 :: unsigned f
  | i32Load a => access 0x28 a
  | f64Load a => access 0x2B a
  | i32Store a => access 0x36 a
  | f64Store a => access 0x39 a
  | ret => [0x0F]
  | block => [0x02, ValueType.void.code]
  | loop => [0x03, ValueType.void.code]
  | stop => [0x0B]
  | branchIf depth => 0x0D :: unsigned depth
  | i32Eqz => [0x45]

end Instruction

/-- The natural alignment of a type as an exponent of two. -/
def alignment : ValueType → Nat
  | .i32 => 2
  | .i64 => 3
  | .f64 => 3
  | .void => 32

/-- The instruction that loads a value. -/
def loadOf : ValueType → Instruction
  | .f64 => .f64Load (alignment .f64)
  | t => .i32Load (alignment t)

/-- The instruction that stores a value. -/
def storeOf : ValueType → Instruction
  | .f64 => .f64Store (alignment .f64)
  | t => .i32Store (alignment t)

/-- The instruction of a literal. -/
def constantOf : Constant → Instruction
  | .i32 v => .i32Const v
  | .i64 v => .i64Const v
  | .f64 v => .f64Const v

mutual

/-- The instructions of an expression, with the index of each callable
function and the labels around it, innermost first. -/
def instructions (index? : String → Option Nat) (labels : List String) :
    Expr → Except ModuleFault (List Instruction)
  | .const c => .ok [constantOf c]
  | .get i _ => .ok [.localGet i]
  | .set i v => do
    return (← instructions index? labels v) ++ [.localSet i]
  | .call f args _ => do
    let code ← instructionsAll index? labels args
    match index? f with
    | none => .error (.noIndex f)
    | some i => return code ++ [.call i]
  | .load t a => do
    return (← instructions index? labels a) ++ [loadOf t]
  | .store t a v => do
    let address ← instructions index? labels a
    let value ← instructions index? labels v
    return address ++ value ++ [storeOf t]
  | .returnValue v => do
    return (← instructions index? labels v) ++ [.ret]
  | .returnNone => .ok [.ret]
  | .block l body => do
    return .block :: (← instructionsAll index? (l :: labels) body) ++ [.stop]
  | .loop l body => do
    return .loop :: (← instructionsAll index? (l :: labels) body) ++ [.stop]
  | .branchIf l c test =>
    match labels.findIdx? fun label => label == l with
    | none => .error (.labelOutOfScope l)
    | some depth => do
      let condition ← instructions index? labels c
      match test with
      | .zero => return condition ++ [.i32Eqz, .branchIf depth]
      | .nonzero => return condition ++ [.branchIf depth]

/-- The instructions of expressions in order. -/
def instructionsAll (index? : String → Option Nat) (labels : List String) :
    List Expr → Except ModuleFault (List Instruction)
  | [] => .ok []
  | e :: es => do
    let code ← instructions index? labels e
    let rest ← instructionsAll index? labels es
    return code ++ rest

end

end CallFlow.Wasm
