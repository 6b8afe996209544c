/-
What can stop a compilation.

An error is a cause with the data that explains it. The wording of every cause,
its code, its advice and the label of its place in the source are each one
function, so a change of words touches one line and no logic.
-/
import CallFlow.Json.Fault
import CallFlow.Span
import CallFlow.ValueType

namespace CallFlow

-- ================================================= faults of a graph

/-- Why a control-flow graph cannot become structured code. Blocks are
named by their position. -/
inductive GraphFault where
  | endsMissing
  | edgeLeaves (source target : Nat)
  | exitWithoutReturn (block : Nat)
  | exitContinues (block : Nat)
  | earlyReturn (block : Nat)
  | fallthroughs (block count : Nat)
  | unreachable (block : Nat)
  | neverExits (block : Nat)
  | manyHeaders (count : Nat)
  | conditionalBackEdge (source target : Nat)
  | headerBypassed (header latch : Nat)
  | latchNeverLeaves (latch : Nat)
  | conditionalElsewhere (source target : Nat)
  | latchWithoutCondition (latch : Nat)
  | noFallthrough (block : Nat)
  | secondReturn
  | noReturn
  deriving DecidableEq

/-- How a block is written. -/
def blockName (block : Nat) : String :=
  "bb" ++ toString block

/-- The wording of a graph fault. -/
def GraphFault.message : GraphFault → String
  | endsMissing => "entry or exit block is missing"
  | edgeLeaves a b => "edge " ++ blockName a ++ " -> " ++ blockName b ++ " leaves the graph"
  | exitWithoutReturn b => "exit block " ++ blockName b ++ " must end in its only return"
  | exitContinues b => "exit block " ++ blockName b ++ " has successors"
  | earlyReturn b => "block " ++ blockName b ++ " returns before the exit"
  | fallthroughs b n =>
    "block " ++ blockName b ++ " has " ++ toString n ++ " unconditional successors"
  | unreachable b => "block " ++ blockName b ++ " is unreachable"
  | neverExits b => "block " ++ blockName b ++ " never reaches the exit"
  | manyHeaders n => toString n ++ " loop headers, at most one allowed"
  | conditionalBackEdge a b => "conditional back edge " ++ blockName a ++ " -> " ++ blockName b
  | headerBypassed h l => "loop header " ++ blockName h ++ " does not dominate " ++ blockName l
  | latchNeverLeaves l => "loop latch " ++ blockName l ++ " never leaves the loop"
  | conditionalElsewhere a b =>
    "conditional edge " ++ blockName a ++ " -> " ++ blockName b ++ " does not target the exit"
  | latchWithoutCondition l => "loop latch " ++ blockName l ++ " has no exit condition"
  | noFallthrough b => "block " ++ blockName b ++ " has no fallthrough"
  | secondReturn => "more than one return in a looping body"
  | noReturn => "looping body has no return"

-- ================================================= faults of a module

/-- Why the body of a function cannot be encoded. -/
inductive CodeFault where
  | noSlot (index : Nat)
  | slotRead (index : Nat) (declared used : ValueType)
  | slotAssigned (index : Nat) (declared assigned : ValueType)
  | unknownCallee (function : String)
  | callMismatch (function : String)
  | badAddress (type : ValueType)
  | noAccess (type : ValueType)
  | storedOther (type found : ValueType)
  | returnedOther (found declared : ValueType)
  | branchOutside (label : String)
  | badCondition (type : ValueType)
  deriving DecidableEq

/-- The wording of a code fault. -/
def CodeFault.message : CodeFault → String
  | noSlot i => "slot $" ++ toString i ++ " does not exist"
  | slotRead i declared used =>
    "slot $" ++ toString i ++ " is " ++ declared.name ++ " but is read as " ++ used.name
  | slotAssigned i declared assigned =>
    "slot $" ++ toString i ++ " is " ++ declared.name ++ " but is assigned " ++ assigned.name
  | unknownCallee f => "call to unknown function '" ++ f ++ "'"
  | callMismatch f => "call to '" ++ f ++ "' does not match its signature"
  | badAddress t => "memory address is " ++ t.name
  | noAccess t => "no memory access for " ++ t.name
  | storedOther t found => t.name ++ ".store of a " ++ found.name ++ " value"
  | returnedOther found declared => "returns " ++ found.name ++ ", declared " ++ declared.name
  | branchOutside l => "branch to '" ++ l ++ "' outside its block"
  | badCondition t => "branch condition is " ++ t.name ++ ", expected i32"

/-- Why a module cannot be encoded. -/
inductive ModuleFault where
  | definedTwice (function : String)
  | tooManyPages (maximum : UInt32)
  | initialAboveMaximum (initial maximum : UInt32)
  | exportUnknown (name function : String)
  | exportTwice (name : String)
  | inFunction (function : String) (fault : CodeFault)
  | noIndex (function : String)
  | labelOutOfScope (label : String)
  | offsetTooLarge (offset : UInt32)
  deriving DecidableEq

/-- The most pages a memory with 32-bit addresses has. -/
def maxPages : UInt32 := 65536

/-- The wording of a module fault. -/
def ModuleFault.message : ModuleFault → String
  | definedTwice f => "function '" ++ f ++ "' is defined twice"
  | tooManyPages n =>
    "memory limit of " ++ toString n.toNat ++ " pages exceeds " ++ toString maxPages.toNat
  | initialAboveMaximum i m =>
    "memory starts at " ++ toString i.toNat ++ " pages but is limited to " ++ toString m.toNat
  | exportUnknown name f => "export '" ++ name ++ "' refers to unknown function '" ++ f ++ "'"
  | exportTwice name => "export name '" ++ name ++ "' is used twice"
  | inFunction f fault => "in function '" ++ f ++ "': " ++ fault.message
  | noIndex f => "no index for function '" ++ f ++ "'"
  | labelOutOfScope l => "label '" ++ l ++ "' is not in scope"
  | offsetTooLarge n => "data offset " ++ toString n.toNat ++ " does not fit in i32"

-- ============================================================ errors

/-- Where two types disagree. -/
inductive TypeContext where
  /-- A literal that is out of the range of its type. -/
  | literal (value : Int64)
  | initializer (name : String)
  /-- The arguments of a call are counted from one. -/
  | argument (position : Nat) (callee : String)
  | callResult (callee target : String)
  | returnValue (function : String)
  deriving DecidableEq

/-- The wording of a context. -/
def TypeContext.describe : TypeContext → String
  | literal n => "literal " ++ toString n.toInt
  | initializer v => "initializer of '" ++ v ++ "'"
  | argument n f => "argument " ++ toString n ++ " of call to '" ++ f ++ "'"
  | callResult f v => "result of '" ++ f ++ "' assigned to '" ++ v ++ "'"
  | returnValue f => "return value of '" ++ f ++ "'"

/-- The cause that stops a compilation. -/
inductive Error where
  /-- A source that is not text. -/
  | notText
  /-- A text that holds no tree. -/
  | noTree (fault : Json.Fault)
  /-- A node that is not what its place asks for. -/
  | malformedNode (expected found : String) (span : Option Span)
  | unboundIdentifier (name : String) (span : Option Span)
  | duplicateDeclaration (name : String) (span : Option Span)
  | typeMismatch (context : TypeContext) (expected found : ValueType) (span : Option Span)
  /-- A loop condition that is not an `i32`. -/
  | invalidSentinel (name : String) (found : ValueType) (span : Option Span)
  /-- A function without a call. -/
  | missingReturn (function : String) (span : Option Span)
  | unknownExport (name : String) (span : Option Span)
  | unknownFunction (name : String) (span : Option Span)
  | arityMismatch (function : String) (expected found : Nat) (span : Option Span)
  | irreducible (fault : GraphFault)
  | invalidModule (fault : ModuleFault)
  deriving DecidableEq

namespace Error

/-- The wording of an error. -/
def message : Error → String
  | notText => "IO error: stream did not contain valid UTF-8"
  | noTree fault => "Invalid AST input: " ++ fault.message
  | malformedNode expected found _ =>
    "Malformed node: expected `" ++ expected ++ "`, found `" ++ found ++ "`"
  | unboundIdentifier name _ => "Unbound identifier '" ++ name ++ "'"
  | duplicateDeclaration name _ => "'" ++ name ++ "' is already declared"
  | typeMismatch context expected found _ =>
    "Type mismatch in " ++ context.describe ++ ": expected " ++ expected.name ++ ", found "
      ++ found.name
  | invalidSentinel name found _ =>
    "Loop condition '" ++ name ++ "' must be i32, found " ++ found.name
  | missingReturn function _ => "Function '" ++ function ++ "' has no output variable"
  | unknownExport name _ => "Export refers to unknown function '" ++ name ++ "'"
  | unknownFunction name _ => "Call to unknown function '" ++ name ++ "'"
  | arityMismatch function expected found _ =>
    "Function '" ++ function ++ "' takes " ++ toString expected ++ " argument(s), "
      ++ toString found ++ " supplied"
  | irreducible fault => "Irreducible control flow: " ++ fault.message
  | invalidModule fault => "Backend error: " ++ fault.message

/-- The code under which an error is filed. -/
def code? : Error → Option String
  | notText => none
  | noTree _ => some "kiss::ast"
  | malformedNode .. => some "kiss::ast::malformed"
  | unboundIdentifier .. => some "kiss::semantic::unbound"
  | duplicateDeclaration .. => some "kiss::semantic::duplicate"
  | typeMismatch .. => some "kiss::semantic::type_mismatch"
  | invalidSentinel .. => some "kiss::lowering::sentinel"
  | missingReturn .. => some "kiss::lowering::missing_return"
  | unknownExport .. => some "kiss::lowering::unknown_export"
  | unknownFunction .. => some "kiss::lowering::unknown_function"
  | arityMismatch .. => some "kiss::lowering::arity"
  | irreducible _ => some "kiss::lowering::cfg"
  | invalidModule _ => some "kiss::backend"

/-- The advice that goes with an error. -/
def help? : Error → Option String
  | unboundIdentifier .. =>
    some "declare it in this function; only locals can receive a call result"
  | typeMismatch .. => some "kiss never converts between types"
  | missingReturn .. => some "the target of the last call statement is the returned value"
  | _ => none

/-- The place of an error in the source. -/
def span? : Error → Option Span
  | malformedNode _ _ span => span
  | unboundIdentifier _ span => span
  | duplicateDeclaration _ span => span
  | typeMismatch _ _ _ span => span
  | invalidSentinel _ _ span => span
  | missingReturn _ span => span
  | unknownExport _ span => span
  | unknownFunction _ span => span
  | arityMismatch _ _ _ span => span
  | _ => none

/-- What is said about the place of an error. -/
def label? : Error → Option String
  | malformedNode .. => some "this node"
  | unboundIdentifier .. => some "not declared in this function"
  | duplicateDeclaration .. => some "declared again here"
  | typeMismatch _ _ found _ => some ("this is " ++ found.name)
  | invalidSentinel .. => some "declared here"
  | missingReturn .. => some "in this function"
  | unknownExport .. => some "exported here"
  | unknownFunction .. => some "called here"
  | arityMismatch .. => some "in this call"
  | _ => none

end Error

end CallFlow
