/-
What a command needs from the machine it runs on.

Commands are written against this record in any monad, so they run alike on a
real machine and on a tree of files in memory.
-/
import CallFlow.Event
import CallFlow.Text.Utf8

namespace CallFlow

/-- Something that a command prints. -/
inductive Output where
  /-- A word on what is done, and to what. -/
  | status (verb message : String)
  /-- The time that was spent. -/
  | finished
  | line (text : String)
  | bytes (content : List UInt8)
  deriving DecidableEq

namespace Output

/-- A status line: the word ends in the twelfth column. -/
def statusLine (verb message : String) : String :=
  String.ofList (List.replicate (12 - verb.length) ' ') ++ verb ++ " " ++ message ++ "\n"

/-- The bytes that are printed, given how the time that was spent is
written. -/
def encode (elapsed : String) : Output → List UInt8
  | status verb message => Text.utf8 (statusLine verb message)
  | finished => Text.utf8 (statusLine "Finished" ("in " ++ elapsed))
  | line text => Text.utf8 (text ++ "\n")
  | bytes content => content

end Output

/-- A machine. Paths are texts, and relative ones start at the current
directory. -/
structure Host (m : Type → Type) where
  /-- The absolute path of the current directory. -/
  currentDirectory : m String
  /-- Whether there is anything at a path. -/
  hasEntry : String → m Bool
  /-- Whether there is a file at a path. -/
  isFile : String → m Bool
  /-- The content of a file, if it can be read. -/
  readFile : String → m (Option (List UInt8))
  /-- Replaces the content of a file, and says whether that was
  possible. -/
  writeFile : String → List UInt8 → m Bool
  /-- Makes a directory and those above it, and says whether that was
  possible. -/
  makeDirectories : String → m Bool
  /-- All of the standard input, if it can be read. -/
  readInput : m (Option (List UInt8))
  /-- Prints to the standard output. -/
  print : Output → m Unit
  /-- Reports an event. -/
  report : Event → m Unit

end CallFlow
