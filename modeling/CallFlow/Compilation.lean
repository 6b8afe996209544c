/-
Compiling a source text: reading, lowering, and then checking or encoding.
-/
import CallFlow.Listing
import CallFlow.Lowering.Program
import CallFlow.Settings
import CallFlow.Tree.Reader
import CallFlow.Wasm.Emit
import CallFlow.Wat.Emit

namespace CallFlow

/-- A stage of a compilation. -/
inductive Stage where
  | decoding
  | lowering
  | validation
  | generation
  deriving DecidableEq

/-- The name of a stage. -/
def Stage.name : Stage → String
  | decoding => "Decoding"
  | lowering => "Lowering"
  | validation => "Validation"
  | generation => "Code generation"

/-- An error with the stage that found it. -/
structure StageFault where
  stage : Stage
  error : Error
  deriving DecidableEq

/-- The outcome of a stage. -/
def Stage.outcome {α : Type} (stage : Stage) (x : Except Error α) : Except StageFault α :=
  x.mapError fun error => { stage, error }

/-- The tree of a source text. -/
def readSource (text : String) : Except Error Tree.Program :=
  (Tree.Program.ofJson text).mapError .noTree

/-- The events of lowering a source text. -/
def sourceEvents (memory : Memory) (text : String) : List Event :=
  match readSource text with
  | .ok program => (lower memory program).events
  | .error _ => []

/-- The module of a source text. -/
def moduleOf (memory : Memory) (text : String) : Except StageFault Module := do
  let program ← Stage.decoding.outcome (readSource text)
  Stage.lowering.outcome (lower memory program).outcome

/-- Accepts a module that can be encoded. -/
def Module.accept (m : Module) : Except Error Unit :=
  m.validate.mapError .invalidModule

/-- A module in an output format. -/
def Module.emit (m : Module) : EmitKind → Except Error (List UInt8)
  | .wasm => (Wasm.emit m true).outcome
  | .wat => (Wat.emit m).outcome.map Text.utf8
  | .ir => do
    m.accept
    return Text.utf8 m.text

/-- Compiles a source text without output. -/
def checkSource (memory : Memory) (text : String) : Except StageFault Module := do
  let m ← moduleOf memory text
  Stage.validation.outcome m.accept
  return m

/-- Compiles a source text to an output format. -/
def buildSource (memory : Memory) (kind : EmitKind) (text : String) :
    Except StageFault (List UInt8) := do
  let m ← moduleOf memory text
  Stage.generation.outcome (m.emit kind)

end CallFlow
