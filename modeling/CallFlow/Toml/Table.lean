/-
Tables under construction.

A statement may add to a table only in the way in which the table came about: a
header declares a table once, the names before the last one of a header only pass
through their tables, and a key with points may go on with tables that such keys
made.
-/
import CallFlow.Toml.Value

namespace CallFlow.Toml

/-- How a table came about. -/
inductive TableKind where
  /-- By a header, or as the outermost table. -/
  | declared
  /-- On the way to a table with a header. -/
  | passed
  /-- By a key with points. -/
  | dotted
  deriving DecidableEq

/-- A member of a table under construction. -/
inductive Node where
  | value (v : Value)
  | table (kind : TableKind) (members : List (String × Node))
  /-- Tables with one repeated header. -/
  | tables (items : List (List (String × Node)))

/-- The members of a table under construction. -/
abbrev Members : Type :=
  List (String × Node)

namespace Node

mutual

/-- The value that a finished member has. -/
def finish : Node → Value
  | value v => v
  | table _ members => .table (finishMembers members)
  | tables items => .list (finishItems items)

/-- The values that finished members have. -/
def finishMembers : List (String × Node) → List (String × Value)
  | [] => []
  | (name, n) :: rest => (name, finish n) :: finishMembers rest

/-- The values that finished tables have. -/
def finishItems : List (List (String × Node)) → List Value
  | [] => []
  | members :: rest => .table (finishMembers members) :: finishItems rest

end

end Node

namespace Members

/-- Replaces a member, or adds it. -/
def set (ms : Members) (name : String) (n : Node) : Members :=
  ms.filter (fun m => m.1 != name) ++ [(name, n)]

/-- Adds a member, whose name must be new. -/
def add (ms : Members) (name : String) (n : Node) : Option Members :=
  if (ms.lookup name).isSome then none else some (ms ++ [(name, n)])

/-- Changes the last of some tables. -/
def changeLast (f : Members → Option Members) : List Members → Option (List Members)
  | [] => none
  | [ms] => (f ms).map fun ms => [ms]
  | ms :: rest => (changeLast f rest).map (ms :: ·)

/-- Adds a value under a key with points, given the kind of the table at
hand. -/
def assignDotted (name : String) (v : Value) :
    List String → TableKind → Members → Option Members
  | [], kind, ms => if kind = .dotted then ms.add name (.value v) else none
  | k :: path, _, ms =>
    match ms.lookup k with
    | none => do ms.add k (.table .dotted (← assignDotted name v path .dotted []))
    | some (.table .declared _) => none
    | some (.table kind inner) => do
      return ms.set k (.table kind (← assignDotted name v path kind inner))
    | some (.tables items) => do
      return ms.set k (.tables (← changeLast (assignDotted name v path .declared) items))
    | some (.value _) => none

/-- Adds a value under a key. -/
def assign (ms : Members) (path : List String) (name : String) (v : Value) : Option Members :=
  match path with
  | [] => ms.add name (.value v)
  | _ => ms.assignDotted name v path .declared

/-- Adds values under keys, in order. -/
def assignAll (ms : Members) : List ((List String × String) × Value) → Option Members
  | [] => some ms
  | ((path, name), v) :: rest => do (← ms.assign path name v).assignAll rest

/-- Changes the table at the end of a path, through which tables are
made where there are none. -/
def change (f : Members → Option Members) : List String → Members → Option Members
  | [], ms => f ms
  | k :: path, ms =>
    match ms.lookup k with
    | none => do ms.add k (.table .passed (← change f path []))
    | some (.table kind inner) => do return ms.set k (.table kind (← change f path inner))
    | some (.tables items) => do return ms.set k (.tables (← changeLast (change f path) items))
    | some (.value _) => none

/-- Declares a table with its values. A table that was only passed
through may still be declared. -/
def declare (name : String) (values : List ((List String × String) × Value)) (ms : Members) :
    Option Members :=
  match ms.lookup name with
  | none => do ms.add name (.table .declared (← assignAll [] values))
  | some (.table .passed inner) => do
    return ms.set name (.table .declared (← assignAll inner values))
  | some _ => none

/-- Adds a table with its values to those with the same header. -/
def append (name : String) (values : List ((List String × String) × Value)) (ms : Members) :
    Option Members :=
  match ms.lookup name with
  | none => do ms.add name (.tables [← assignAll [] values])
  | some (.tables items) => do return ms.set name (.tables (items ++ [← assignAll [] values]))
  | some _ => none

end Members

end CallFlow.Toml
