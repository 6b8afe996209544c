/-
The command line: what the arguments ask for, and the command that does it.

Arguments are taken from left to right, and the first that cannot be right ends
the reading; so does a question for the version or for help.
-/
import CallFlow.Project

namespace CallFlow

-- =============================================================== requests

/-- The commands by name. -/
inductive CommandName where
  | init
  | check
  | build
  deriving DecidableEq

namespace CommandName

/-- The name of a command. -/
def text : CommandName → String
  | init => "init"
  | check => "check"
  | build => "build"

/-- The command with a name or a short name. -/
def ofText? : String → Option CommandName
  | "init" => some init
  | "check" => some check
  | "c" => some check
  | "build" => some build
  | "b" => some build
  | _ => none

end CommandName

/-- A command with its arguments. -/
inductive Command where
  | init
  | check (input : String)
  | build (input : String) (output : Option String) (emit : Option EmitKind)
  deriving DecidableEq

/-- What a command line asks for. -/
inductive Request where
  | run (verbose : Bool) (command : Command)
  /-- The version of the program or of one of its commands. -/
  | version (command : Option CommandName)
  /-- Help on the program or on one of its commands. -/
  | help (command : Option CommandName)
  /-- Arguments that make no sense. -/
  | misuse
  deriving DecidableEq

-- ================================================================ reading

namespace CommandLine

/-- An option. -/
inductive Flag where
  | verbose
  | version
  | help
  | output
  | emit
  deriving DecidableEq

namespace Flag

/-- Whether a command has an option; `none` stands for the program
itself. -/
def isOf (command : Option CommandName) : Flag → Bool
  | output => command == some .build
  | emit => command == some .build
  | _ => true

/-- Whether an option takes a value. -/
def takesValue : Flag → Bool
  | output => true
  | emit => true
  | _ => false

/-- The option with a long name. -/
def ofLong? : String → Option Flag
  | "verbose" => some verbose
  | "version" => some version
  | "help" => some help
  | "output" => some output
  | "emit" => some emit
  | _ => none

/-- The option with a letter. -/
def ofShort? : Char → Option Flag
  | 'v' => some verbose
  | 'V' => some version
  | 'h' => some help
  | 'o' => some output
  | _ => none

end Flag

/-- What the arguments of a command have said so far. -/
structure Given where
  verbose : Bool := false
  input : Option String := none
  output : Option String := none
  emit : Option EmitKind := none
  /-- The option that waits for its value. -/
  waiting : Option Flag := none
  /-- Whether options have been ended. -/
  ended : Bool := false

namespace Given

variable (command : Option CommandName)

/-- Takes an option without a value. -/
def takeFlag (g : Given) : Flag → Except Request Given
  | .version => .error (.version command)
  | .help => .error (.help command)
  | .verbose => if g.verbose then .error .misuse else .ok { g with verbose := true }
  | _ => .error .misuse

/-- Takes the value of an option, which may be given once. -/
def takeValue (g : Given) (value : String) : Flag → Except Request Given
  | .output =>
    if g.output.isSome || value.isEmpty then .error .misuse
    else .ok { g with output := some value, waiting := none }
  | .emit =>
    match g.emit, EmitKind.ofName? value with
    | none, some kind => .ok { g with emit := some kind, waiting := none }
    | _, _ => .error .misuse
  | _ => .error .misuse

/-- Takes an argument that is no option. -/
def takeInput (g : Given) (value : String) : Except Request Given :=
  if command = none ∨ command = some .init ∨ g.input.isSome ∨ value.isEmpty then .error .misuse
  else .ok { g with input := some value }

/-- Takes a long option, with a value behind an equals sign or without. -/
def takeLong (g : Given) (name : String) (value : Option String) : Except Request Given :=
  match Flag.ofLong? name with
  | none => .error .misuse
  | some flag =>
    if !flag.isOf command then .error .misuse
    else
      match flag.takesValue, value with
      | true, some value => g.takeValue value flag
      | true, none => .ok { g with waiting := some flag }
      | false, none => g.takeFlag command flag
      | false, some _ => .error .misuse

/-- Takes letters of options. What follows the letter of an option with
a value, after an equals sign or directly, is the value. -/
def takeShort (g : Given) : List Char → Except Request Given
  | [] => .ok g
  | c :: cs =>
    match Flag.ofShort? c with
    | none => .error .misuse
    | some flag =>
      if !flag.isOf command then .error .misuse
      else if flag.takesValue then
        match cs with
        | [] => .ok { g with waiting := some flag }
        | '=' :: value => g.takeValue (String.ofList value) flag
        | value => g.takeValue (String.ofList value) flag
      else do (← g.takeFlag command flag).takeShort cs

/-- The name and the value of a long option. -/
def splitLong (cs : List Char) : String × Option String :=
  (String.ofList (cs.takeWhile fun c => c != '='),
    match cs.dropWhile fun c => c != '=' with
    | [] => none
    | _ :: value => some (String.ofList value))

/-- Takes one argument. -/
def take (g : Given) (argument : String) : Except Request Given :=
  match g.ended, g.waiting, argument.toList with
  | true, _, _ => g.takeInput command argument
  | false, some _, '-' :: _ :: _ => .error .misuse
  | false, some flag, _ => g.takeValue argument flag
  | false, none, ['-', '-'] => .ok { g with ended := true }
  | false, none, '-' :: '-' :: cs =>
    let (name, value) := splitLong cs
    g.takeLong command name value
  | false, none, '-' :: c :: cs => g.takeShort command (c :: cs)
  | false, none, _ => g.takeInput command argument

/-- Takes all arguments of a command. -/
def takeAll (g : Given) : List String → Except Request Given
  | [] => if g.waiting.isSome then .error .misuse else .ok g
  | a :: as => do (← g.take command a).takeAll as

end Given

/-- The command that the arguments behind its name describe. -/
def command (verbose : Bool) (name : CommandName) (arguments : List String) : Request :=
  match Given.takeAll (some name) {} arguments with
  | .error request => request
  | .ok g =>
    let verbose := verbose || g.verbose
    match name, g.input with
    | .init, _ => .run verbose .init
    | _, none => .misuse
    | .check, some input => .run verbose (.check input)
    | .build, some input => .run verbose (.build input g.output g.emit)

/-- What a question for help is about. -/
def helpOn : List String → Request
  | [] => .help none
  | [name] =>
    match CommandName.ofText? name with
    | some c => .help (some c)
    | none => if name = "help" then .help none else .misuse
  | _ => .misuse

/-- What arguments ask for, after some options of the program. -/
def requestFrom (g : Given) : List String → Request
  | [] => .misuse
  | a :: as =>
    match g.ended, CommandName.ofText? a with
    | false, some name => command g.verbose name as
    | _, _ =>
      if a = "help" ∧ !g.ended then helpOn as
      else
        match g.take none a with
        | .error request => request
        | .ok g => requestFrom g as

/-- What arguments ask for. -/
def request (arguments : List String) : Request :=
  requestFrom {} arguments

-- ================================================================= texts

/-- The version of the program or of one of its commands. -/
def versionText (command : Option CommandName) : String :=
  "kissc" ++ (command.map fun c => "-" ++ c.text).getD "" ++ " 0.1.0"

/-- Lines with line ends between. -/
def lines (ls : List String) : String :=
  "\n".intercalate ls

/-- Help on the program or on one of its commands. -/
def helpText : Option CommandName → String
  | none =>
    lines ["Usage: kissc [OPTIONS] <COMMAND>", "", "Commands:",
      "  init   Write a default kiss.toml in the current directory",
      "  check  Lower a program and validate the module without writing output [aliases: c]",
      "  build  Compile a program [aliases: b]",
      "  help   Print this message or the help of the given subcommand(s)", "", "Options:",
      "  -v, --verbose  Log lowering details",
      "  -h, --help     Print help",
      "  -V, --version  Print version"]
  | some .init =>
    lines ["Write a default kiss.toml in the current directory", "", "Usage: kissc init [OPTIONS]",
      "", "Options:",
      "  -v, --verbose  Log lowering details",
      "  -h, --help     Print help",
      "  -V, --version  Print version"]
  | some .check =>
    lines ["Lower a program and validate the module without writing output", "",
      "Usage: kissc check [OPTIONS] <INPUT>", "", "Arguments:",
      "  <INPUT>  JSON AST file, or `-` for stdin", "", "Options:",
      "  -v, --verbose  Log lowering details",
      "  -h, --help     Print help",
      "  -V, --version  Print version"]
  | some .build =>
    lines ["Compile a program", "", "Usage: kissc build [OPTIONS] <INPUT>", "", "Arguments:",
      "  <INPUT>  JSON AST file, or `-` for stdin", "", "Options:",
      "  -o, --output <OUTPUT>  Output file, or `-` for stdout (defaults to <out_dir>/<input stem>.<format>)",
      "      --emit <EMIT>      Output format: wasm, wat or ir",
      "  -v, --verbose          Log lowering details",
      "  -h, --help             Print help",
      "  -V, --version          Print version"]

-- =============================================================== running

variable {m : Type → Type} [Monad m] (host : Host m)

/-- Runs a command in the current directory. -/
def perform (c : Command) : Run m Unit := do
  let here ← host.currentDirectory
  match c with
  | .init => do
    let settings ← host.makeProject here
    host.print (.status "Created" ("kiss project '" ++ settings.package.name ++ "'"))
    host.print (.line "")
    host.print (.line "To get started:")
    host.print (.line "  kissc build program.json")
  | .check input => do
    let compiler ← host.discover here
    let _ ← compiler.check host input
  | .build input output emit => do
    let compiler ← host.discover here
    let _ ← compiler.build host input output emit

/-- How a command line ended. -/
inductive Ending where
  | done
  | failed (fault : RunFault)
  | misused
  deriving DecidableEq

namespace Ending

/-- The exit code. -/
def code : Ending → Nat
  | done => 0
  | failed _ => 1
  | misused => 2

end Ending

/-- Does what arguments ask for. -/
def run (arguments : List String) : m Ending := do
  match request arguments with
  | .misuse => return .misused
  | .version command => do
    host.print (.line (versionText command))
    return .done
  | .help command => do
    host.print (.line (helpText command))
    return .done
  | .run _ command => do
    match ← (perform host command).run with
    | .ok () => return .done
    | .error fault => return .failed fault

end CommandLine

end CallFlow
