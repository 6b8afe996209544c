/-
Events: what a compilation reports about its progress.

A compilation step returns its events with its outcome, so an error keeps the
events that led up to it. `Traced` is the monad of such steps; its `outcome` is a
homomorphism to `Except`, so a statement about results need not mention events.
-/
import CallFlow.Operation
import CallFlow.Signature

namespace CallFlow

/-- How important an event is. -/
inductive Level where
  | trace
  | debug
  | warn
  deriving DecidableEq

/-- A thing that happened. -/
inductive Event where
  | declaredSlot (name : String) (slot : Slot)
  | registeredFunction (name : String) (signature : Signature)
  | loweredInitializer (op : Operation)
  | loweredCall (op : Operation)
  | reconstructingLoop (inits calls : Nat) (guard : Slot)
  | loweredFunction (function : String) (params locals : Nat) (looping : Bool) (returns : Slot)
  | exportedAgain (function name : String)
  | exportNameAgain (function name : String)
  | assembledModule (imports functions exports : Nat)
  | emittedText (bytes : Nat)
  | emittedBinary (bytes : Nat)
  deriving DecidableEq

namespace Event

/-- The level of an event. -/
def level : Event → Level
  | declaredSlot .. => .trace
  | registeredFunction .. => .trace
  | loweredInitializer _ => .trace
  | loweredCall _ => .trace
  | exportedAgain .. => .warn
  | exportNameAgain .. => .warn
  | _ => .debug

/-- The message of an event. -/
def message : Event → String
  | declaredSlot .. => "declared slot"
  | registeredFunction .. => "registered function"
  | loweredInitializer _ => "lowered initializer"
  | loweredCall _ => "lowered call"
  | reconstructingLoop .. => "reconstructing loop"
  | loweredFunction .. => "lowered function"
  | exportedAgain .. => "function exported more than once"
  | exportNameAgain .. => "export name used more than once"
  | assembledModule .. => "assembled module"
  | emittedText _ => "emitted text module"
  | emittedBinary _ => "emitted binary module"

/-- How an origin is written in an event. -/
def originText : Origin → String
  | .parameter => "Parameter"
  | .localVariable => "Local"
  | .sentinel => "Sentinel"

/-- How the kind of a function is written in an event. -/
def kindText : FunctionKind → String
  | .imported => "Import"
  | .builtin => "Builtin"
  | .user => "User"

/-- The named details of an event, in order. -/
def fields : Event → List (String × String)
  | declaredSlot name slot =>
    [("name", name), ("slot", slot.text), ("origin", originText slot.origin)]
  | registeredFunction name signature =>
    [("name", name), ("signature", signature.text), ("kind", kindText signature.kind)]
  | loweredInitializer op => [("init", op.text)]
  | loweredCall op => [("op", op.text)]
  | reconstructingLoop inits calls guard =>
    [("inits", toString inits), ("calls", toString calls), ("guard", guard.text)]
  | loweredFunction function params locals looping returns =>
    [("function", function), ("parameters", toString params), ("locals", toString locals),
      ("looping", if looping then "true" else "false"), ("returns", returns.text)]
  | exportedAgain function name => [("function", function), ("name", name)]
  | exportNameAgain function name => [("function", function), ("name", name)]
  | assembledModule imports functions exports =>
    [("imports", toString imports), ("functions", toString functions),
      ("exports", toString exports)]
  | emittedText bytes => [("bytes", toString bytes)]
  | emittedBinary bytes => [("bytes", toString bytes)]

end Event

-- ======================================================= traced steps

/-- The outcome of a step with the events on the way to it. -/
structure Traced (α : Type) where
  events : List Event
  outcome : Except Error α

namespace Traced

/-- Continues with the value of a step, if it has one. -/
def andThen {α β : Type} (x : Traced α) (f : α → Traced β) : Traced β :=
  match x.outcome with
  | .error e => ⟨x.events, .error e⟩
  | .ok a => ⟨x.events ++ (f a).events, (f a).outcome⟩

instance : Monad Traced where
  pure a := ⟨[], .ok a⟩
  bind := andThen

/-- A step without events. -/
def ofExcept {α : Type} (x : Except Error α) : Traced α :=
  ⟨[], x⟩

/-- A step that only fails. -/
def fail {α : Type} (e : Error) : Traced α :=
  ⟨[], .error e⟩

/-- A step that only reports an event. -/
def report (event : Event) : Traced Unit :=
  ⟨[event], .ok ()⟩

@[simp]
theorem outcome_pure {α : Type} (a : α) : (pure a : Traced α).outcome = .ok a := rfl

@[simp]
theorem outcome_bind {α β : Type} (x : Traced α) (f : α → Traced β) :
    (x >>= f).outcome = x.outcome >>= fun a => (f a).outcome := by
  show (andThen x f).outcome = _
  unfold andThen
  cases x.outcome <;> rfl

@[simp]
theorem outcome_ofExcept {α : Type} (x : Except Error α) : (ofExcept x).outcome = x := rfl

@[simp]
theorem outcome_fail {α : Type} (e : Error) : (fail e : Traced α).outcome = .error e := rfl

@[simp]
theorem outcome_report (event : Event) : (report event).outcome = .ok () := rfl

end Traced

end CallFlow
