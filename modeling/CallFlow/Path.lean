/-
Paths: names with slashes between, taken as text.

A part that is empty or a single point says nothing, unless it is the first of a
relative path. A machine refuses some paths whatever its files are.
-/

namespace CallFlow.Path

/-- Whether a machine takes a path at all: it has less than 4096 bytes,
and no NUL among them. -/
def isUsable (path : String) : Bool :=
  path.utf8ByteSize < 4096 && !path.toList.contains '\x00'

/-- The texts between slashes. -/
def split : List Char → List (List Char)
  | [] => [[]]
  | c :: cs =>
    match split cs with
    | [] => [[c]]
    | part :: parts => if c = '/' then [] :: part :: parts else (c :: part) :: parts

/-- Whether a path starts at the root. -/
def isAbsolute (path : String) : Bool :=
  path.toList.head? == some '/'

/-- The parts of a path. The slash in front of an absolute one is left
out. -/
def parts (path : String) : List String :=
  let all := (split path.toList).map String.ofList
  if isAbsolute path then all.drop 1 else all

/-- Whether a part says nothing; `first` holds at the start of a
relative path. -/
def isIdle (first : Bool) (part : String) : Bool :=
  part.isEmpty || (part == "." && !first)

/-- Drops the parts at the end that say nothing. -/
def trim (first : Bool) : List String → List String
  | [] => []
  | part :: rest =>
    match trim false rest with
    | [] => if isIdle first part then [] else [part]
    | rest => part :: rest

/-- The parts of a path up to the last one that says something. -/
def trimmed (path : String) : List String :=
  trim (!isAbsolute path) (parts path)

/-- The path without its last part. -/
def parent? (path : String) : Option String :=
  match trimmed path with
  | [] => none
  | ps =>
    let above := "/".intercalate (trim (!isAbsolute path) ps.dropLast)
    some (if isAbsolute path then "/" ++ above else above)

/-- The name at the end of a path. -/
def fileName? (path : String) : Option String :=
  match (trimmed path).getLast? with
  | none => none
  | some name => if name = "." ∨ name = ".." then none else some name

/-- A name without its extension. A point at the start begins no
extension. -/
def stem (name : String) : String :=
  let reversed := name.toList.reverse
  let before := ((reversed.dropWhile fun c => c != '.').drop 1).reverse
  if before.isEmpty then name else String.ofList before

/-- A path seen from another one. -/
def join (base path : String) : String :=
  if isAbsolute path then path
  else if base.isEmpty || base.toList.getLast? == some '/' then base ++ path
  else base ++ "/" ++ path

end CallFlow.Path
