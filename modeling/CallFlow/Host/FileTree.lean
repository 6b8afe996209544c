/-
A machine in memory: a tree of files, a current directory and an input. It keeps
what is printed and forgets what is reported.
-/
import CallFlow.Host.Basic
import CallFlow.Path

namespace CallFlow

/-- What is found at a place. -/
inductive Entry where
  | directory
  | file (content : List UInt8)
  deriving DecidableEq

/-- A place in a tree of files: the names on the way from its root. -/
abbrev Place : Type :=
  List String

/-- Directories and files by their places. The root is always a
directory. -/
structure FileTree where
  entries : List (Place × Entry) := []

namespace FileTree

/-- What is at a place. -/
def get? (t : FileTree) (place : Place) : Option Entry :=
  if place = [] then some .directory else t.entries.lookup place

/-- Puts an entry at a place. -/
def put (t : FileTree) (place : Place) (e : Entry) : FileTree :=
  { entries := t.entries.filter (fun (p, _) => p ≠ place) ++ [(place, e)] }

/-- Whether a file may have a name. -/
def isName (name : String) : Bool :=
  name.utf8ByteSize ≤ 255

/-- The place that parts of a path lead to. Every part must start from a
directory. -/
def walk (t : FileTree) (here : Place) : List String → Option Place
  | [] => some here
  | part :: rest =>
    match t.get? here with
    | some .directory =>
      if part.isEmpty || part == "." then walk t here rest
      else if part == ".." then walk t here.dropLast rest
      else if isName part then walk t (here ++ [part]) rest
      else none
    | _ => none

/-- Where a path starts, seen from a directory. -/
def origin (here : Place) (path : String) : Place :=
  if Path.isAbsolute path then [] else here

/-- The place of a path, seen from a directory. -/
def place? (t : FileTree) (here : Place) (path : String) : Option Place :=
  if path.isEmpty || !Path.isUsable path then none
  else t.walk (origin here path) (Path.parts path)

/-- What is at a path. -/
def find? (t : FileTree) (here : Place) (path : String) : Option Entry :=
  (t.place? here path).bind t.get?

/-- The content of the file at a path. -/
def read? (t : FileTree) (here : Place) (path : String) : Option (List UInt8) :=
  match t.find? here path with
  | some (.file content) => some content
  | _ => none

/-- Writes a file into a directory that is there. -/
def write? (t : FileTree) (here : Place) (path : String) (content : List UInt8) :
    Option FileTree := do
  let place ← t.place? here path
  match t.get? place with
  | some .directory => none
  | _ => some (t.put place (.file content))

/-- Makes the directories that parts of a path lead through, as far as
that is possible, and says whether it was. -/
def makeWay (t : FileTree) (here : Place) : List String → FileTree × Bool
  | [] => (t, true)
  | part :: rest =>
    if part.isEmpty || part == "." then makeWay t here rest
    else if part == ".." then makeWay t here.dropLast rest
    else
      let place := here ++ [part]
      match t.get? place with
      | some .directory => makeWay t place rest
      | some (.file _) => (t, false)
      | none => if isName part then makeWay (t.put place .directory) place rest else (t, false)

/-- Makes the directory at a path and those above it, and says whether
that was possible. Nothing is made for a path that is not usable. -/
def makeDirectories (t : FileTree) (here : Place) (path : String) : FileTree × Bool :=
  if Path.isUsable path then t.makeWay (origin here path) (Path.parts path) else (t, false)

end FileTree

/-- A machine in memory. -/
structure Workspace where
  files : FileTree := {}
  here : Place := []
  input : List UInt8 := []
  printed : List Output := []

namespace Workspace

/-- The text of a place. -/
def pathOf (place : Place) : String :=
  "/" ++ "/".intercalate place

/-- A machine in memory as a host of commands. -/
def host : Host (StateM Workspace) where
  currentDirectory := return pathOf (← get).here
  hasEntry path := do
    let w ← get
    return (w.files.find? w.here path).isSome
  isFile path := do
    let w ← get
    return (w.files.read? w.here path).isSome
  readFile path := do
    let w ← get
    return w.files.read? w.here path
  writeFile path content := do
    let w ← get
    match w.files.write? w.here path content with
    | some files =>
      set { w with files }
      return true
    | none => return false
  makeDirectories path := do
    let w ← get
    let (files, made) := w.files.makeDirectories w.here path
    set { w with files }
    return made
  readInput := do
    let w ← get
    set { w with input := [] }
    return some w.input
  print output := modify fun w => { w with printed := w.printed ++ [output] }
  report _ := pure ()

end Workspace

end CallFlow
