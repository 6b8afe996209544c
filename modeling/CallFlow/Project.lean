/-
Projects: directories with a settings file, and what is done in them.
-/
import CallFlow.Compilation
import CallFlow.Host.Basic
import CallFlow.Path

namespace CallFlow

/-- The name of a settings file. -/
def settingsFile : String := "kiss.toml"

/-- The path that stands for the standard input or output. -/
def isStream (path : String) : Bool :=
  path == "-"

/-- Why a command failed. -/
inductive RunFault where
  | settings (fault : SettingsFault)
  /-- A source that cannot be read or is not text. -/
  | unreadable (path : String)
  /-- A standard input that cannot be read or is not text. -/
  | unreadableInput
  /-- A compilation that failed; the error is reported apart. -/
  | compilation (fault : StageFault)
  | noDirectory (path : String)
  | unwritable (path : String)
  | alreadyProject (directory : String)
  deriving DecidableEq

/-- The wording of a fault. -/
def RunFault.message : RunFault → String
  | settings fault => fault.message
  | unreadable path => "Failed to read " ++ path
  | unreadableInput => "Failed to read program from stdin"
  | compilation fault => fault.stage.name ++ " failed"
  | noDirectory path => "Failed to create " ++ path
  | unwritable path => "Failed to write " ++ path
  | alreadyProject directory => settingsFile ++ " already exists in " ++ directory

/-- A compiler with its settings, and the directory of the project if
there is one. -/
structure Compiler where
  settings : Settings
  root : Option String := none
  deriving DecidableEq

/-- A command that may fail. -/
abbrev Run (m : Type → Type) (α : Type) : Type :=
  ExceptT RunFault m α

namespace Run

variable {m : Type → Type} [Monad m] {α : Type}

/-- A command that only fails. -/
def fail (fault : RunFault) : Run m α :=
  throw fault

/-- A value or a fault. -/
def ofExcept (x : Except RunFault α) : Run m α :=
  ExceptT.mk (pure x)

/-- Fails unless a step says that it worked. -/
def require (step : m Bool) (fault : RunFault) : Run m Unit := do
  if !(← step) then fail fault

end Run

namespace Host

variable {m : Type → Type} [Monad m] (host : Host m)

/-- The nearest directory with a settings file at or above a directory,
with a bound on the number of directories. -/
def locateWithin (host : Host m) : (budget : Nat) → String → m (Option String)
  | 0, _ => return none
  | budget + 1, directory => do
    if ← host.isFile (Path.join directory settingsFile) then return some directory
    match Path.parent? directory with
    | some above => host.locateWithin budget above
    | none => return none

/-- The nearest directory with a settings file at or above a directory. -/
def locate (start : String) : m (Option String) :=
  host.locateWithin (start.length + 1) start

/-- The compiler for a directory: with the settings of the nearest
project, or with default settings if there is none. -/
def discover (start : String) : Run m Compiler := do
  match ← host.locate start with
  | none => return { settings := { package := { name := "kiss" } } }
  | some root => do
    let path := Path.join root settingsFile
    let content ← host.readFile path
    let settings ← Run.ofExcept ((Settings.load path content).mapError .settings)
    return { settings, root := some root }

/-- Makes a directory a project named after it. -/
def makeProject (directory : String) : Run m Settings := do
  let path := Path.join directory settingsFile
  if ← host.hasEntry path then Run.fail (.alreadyProject directory)
  let name := (Path.fileName? directory).getD "kiss-project"
  let settings : Settings := { package := { name } }
  Run.require (host.writeFile path (Text.utf8 settings.text)) (.unwritable path)
  return settings

/-- How a source is called in messages. -/
def displayName (input : String) : String :=
  if isStream input then "<stdin>" else input

/-- The text of a source. -/
def readSource (input : String) : Run m String := do
  let content ← if isStream input then host.readInput else host.readFile input
  match content.bind Text.ofUtf8? with
  | some text => return text
  | none => Run.fail (if isStream input then .unreadableInput else .unreadable input)

end Host

namespace Compiler

variable {m : Type → Type} [Monad m] (c : Compiler) (host : Host m)

/-- The text of a source. The events of lowering it are reported. -/
def source (input : String) : Run m String := do
  let text ← host.readSource input
  for event in sourceEvents c.settings.toMemory text do
    host.report event
  return text

/-- Checks a source and returns its module. -/
def check (input : String) : Run m Module := do
  host.print (.status "Checking" (Host.displayName input))
  let text ← c.source host input
  let module ← Run.ofExcept ((checkSource c.settings.toMemory text).mapError .compilation)
  host.print .finished
  return module

/-- The output of a source in a format. -/
def compile (input : String) (kind : EmitKind) : Run m (List UInt8) := do
  let text ← c.source host input
  Run.ofExcept ((buildSource c.settings.toMemory kind text).mapError .compilation)

/-- The format that is asked for, or that of the settings. -/
def kindOf (emit : Option EmitKind) : EmitKind :=
  emit.getD c.settings.build.emit

/-- Where the output of a source goes by default. -/
def defaultOutput (input : String) (kind : EmitKind) : m String := do
  let stem := if isStream input then c.settings.package.name
    else ((Path.fileName? input).map Path.stem).getD "out"
  let base ← match c.root with
    | some root => pure root
    | none => host.currentDirectory
  return Path.join (Path.join base c.settings.build.outDir) (stem ++ "." ++ kind.name)

/-- Writes a file, with the directories above it. -/
def writeOutput (path : String) (content : List UInt8) : Run m Unit := do
  match Path.parent? path with
  | some directory =>
    if !directory.isEmpty then
      Run.require (host.makeDirectories directory) (.noDirectory directory)
  | none => pure ()
  Run.require (host.writeFile path content) (.unwritable path)

/-- Compiles a source to a file and returns its path. Output to the
standard output comes without status lines. -/
def build (input : String) (output : Option String) (emit : Option EmitKind) :
    Run m String := do
  let kind := c.kindOf emit
  if output.any isStream then
    let content ← c.compile host input kind
    host.print (.bytes content)
    return output.getD "-"
  host.print (.status "Compiling" (Host.displayName input ++ " (" ++ kind.name ++ ")"))
  let content ← c.compile host input kind
  let path ← match output with
    | some path => pure path
    | none => liftM (c.defaultOutput host input kind : m String)
  writeOutput host path content
  host.print (.status "Wrote" path)
  host.print .finished
  return path

end Compiler

end CallFlow
