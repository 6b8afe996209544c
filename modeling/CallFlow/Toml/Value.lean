/-
Values of a TOML document.
-/
import CallFlow.Number.Binary64

namespace CallFlow.Toml

/-- A value. -/
inductive Value where
  | string (text : String)
  | integer (value : Int64)
  | float (value : Binary64)
  | boolean (value : Bool)
  /-- A date, a time or both, as it was written. -/
  | moment (text : String)
  | list (items : List Value)
  /-- Members have distinct names. -/
  | table (members : List (String × Value))

end CallFlow.Toml
