/-
Structured code: the expressions that make up the body of a function.

Control flow is nested: a branch names a label and leaves the innermost block
with that label at its end, or repeats the innermost loop with it from its start.
-/
import CallFlow.Number.Layout
import CallFlow.Slot

namespace CallFlow

/-- A typed literal. -/
inductive Constant where
  | i32 (value : Int32)
  | i64 (value : Int64)
  | f64 (value : Binary64)
  deriving DecidableEq

namespace Constant

/-- The type of a literal. -/
def type : Constant → ValueType
  | i32 _ => .i32
  | i64 _ => .i64
  | f64 _ => .f64

/-- How a literal is written in a listing. -/
def text : Constant → String
  | i32 v => toString v.toInt ++ ":i32"
  | i64 v => toString v.toInt ++ ":i64"
  | f64 v => Layout.listing.text v ++ ":f64"

end Constant

/-- What a branch tests its condition for. -/
inductive BranchTest where
  | zero
  | nonzero
  deriving DecidableEq

/-- An expression of a body. -/
inductive Expr where
  | const (c : Constant)
  /-- The value of a slot. -/
  | get (index : Nat) (type : ValueType)
  /-- An assignment to a slot. -/
  | set (index : Nat) (value : Expr)
  /-- A call by name. -/
  | call (function : String) (args : List Expr) (result : ValueType)
  /-- The value in memory at an address. -/
  | load (type : ValueType) (address : Expr)
  /-- An assignment to memory at an address. -/
  | store (type : ValueType) (address value : Expr)
  /-- A return with a value. -/
  | returnValue (value : Expr)
  /-- A return without one. -/
  | returnNone
  /-- Code that a branch to its label leaves at the end. -/
  | block (label : String) (body : List Expr)
  /-- Code that a branch to its label repeats from the start. -/
  | loop (label : String) (body : List Expr)
  /-- A branch to a label if the condition passes the test. -/
  | branchIf (label : String) (condition : Expr) (test : BranchTest)

namespace Expr

/-- The value of a slot. -/
def ofSlot (s : Slot) : Expr :=
  get s.index s.type

/-- A branch on the value of a slot. -/
def branchOn (label : String) (s : Slot) (test : BranchTest) : Expr :=
  branchIf label (ofSlot s) test

/-- The type of the value that an expression leaves. -/
def type : Expr → ValueType
  | const c => c.type
  | get _ t => t
  | load t _ => t
  | call _ _ t => t
  | _ => .void

/-- Whether an expression steers control. -/
def isControlFlow : Expr → Bool
  | block .. => true
  | loop .. => true
  | branchIf .. => true
  | _ => false

mutual

/-- An expression and all inside it, from the outside in and in order. -/
def walk : Expr → List Expr
  | const c => [const c]
  | get i t => [get i t]
  | set i v => set i v :: walk v
  | call f args t => call f args t :: walkAll args
  | load t a => load t a :: walk a
  | store t a v => store t a v :: walk a ++ walk v
  | returnValue v => returnValue v :: walk v
  | returnNone => [returnNone]
  | block l body => block l body :: walkAll body
  | loop l body => loop l body :: walkAll body
  | branchIf l c test => branchIf l c test :: walk c

/-- The expressions of a list and all inside them. -/
def walkAll : List Expr → List Expr
  | [] => []
  | e :: es => walk e ++ walkAll es

end

/-- An expression is the first in its own walk. -/
theorem mem_walk_self (e : Expr) : e ∈ e.walk := by
  cases e <;> exact List.mem_cons_self

/-- A walk through expressions goes through the first of them and then
through the others. -/
theorem walkAll_append (es es' : List Expr) :
    walkAll (es ++ es') = walkAll es ++ walkAll es' := by
  induction es with
  | nil => simp [walkAll]
  | cons e es ih => simp [walkAll, ih]

end Expr

end CallFlow
