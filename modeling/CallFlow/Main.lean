/-
The program on a real machine.
-/
import CallFlow.CommandLine

namespace CallFlow

/-- A time in seconds with two places. -/
def elapsedText (milliseconds : Nat) : String :=
  let hundredths := (milliseconds + 5) / 10
  let places := toString (hundredths % 100)
  toString (hundredths / 100) ++ "." ++ (if places.length = 1 then "0" else "") ++ places ++ "s"

/-- The level of an event as it is shown. -/
def levelText : Level → String
  | .trace => "TRACE"
  | .debug => "DEBUG"
  | .warn => "WARN"

/-- An event on one line. -/
def eventText (e : Event) : String :=
  " ".intercalate (levelText e.level :: e.message :: e.fields.map fun (k, v) => k ++ "=" ++ v)

/-- Whether an event is shown. -/
def isShown (verbose : Bool) (e : Event) : Bool :=
  match e.level with
  | .trace => false
  | .debug => verbose
  | .warn => true

/-- The result of a step at a path, or another one if the path is not
usable or the step fails. -/
def attempt {α : Type} (path : String) (otherwise : α) (step : IO α) : IO α := do
  if !Path.isUsable path then return otherwise
  try step
  catch _ => return otherwise

/-- The machine that the program runs on. -/
def machine (start : Nat) (verbose : Bool) : Host IO where
  currentDirectory := return (← IO.currentDir).toString
  hasEntry path := attempt path false do
    let _ ← IO.FS.realPath path
    return true
  isFile path := attempt path false do
    return !(← (← IO.FS.realPath path).isDir)
  readFile path := attempt path none do
    return some (← IO.FS.readBinFile path).toList
  writeFile path content := attempt path false do
    IO.FS.writeBinFile path ⟨content.toArray⟩
    return true
  makeDirectories path := attempt path false do
    IO.FS.createDirAll path
    return true
  readInput := do
    try return some (← (← IO.getStdin).readBinToEnd).toList
    catch _ => return none
  print output := do
    let out ← IO.getStdout
    out.write ⟨(output.encode (elapsedText ((← IO.monoMsNow) - start))).toArray⟩
    out.flush
  report event := do
    if isShown verbose event then IO.eprintln (eventText event)

/-- Shows the error that made a compilation fail. -/
def showError (e : Error) : IO Unit := do
  if let some code := e.code? then IO.eprintln code
  IO.eprintln ("  × " ++ e.message)
  if let some help := e.help? then IO.eprintln ("  help: " ++ help)

/-- Whether arguments ask for more events. -/
def isVerbose (arguments : List String) : Bool :=
  match CommandLine.request arguments with
  | .run verbose _ => verbose
  | _ => false

end CallFlow

open CallFlow in
def main (arguments : List String) : IO UInt32 := do
  let start ← IO.monoMsNow
  let ending ← CommandLine.run (machine start (isVerbose arguments)) arguments
  match ending with
  | .done => pure ()
  | .failed fault => do
    if let .compilation stage := fault then showError stage.error
    IO.eprintln ("Error: " ++ fault.message)
  | .misused => IO.eprintln (CommandLine.helpText none)
  return UInt32.ofNat ending.code
