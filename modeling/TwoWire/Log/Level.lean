/-!
# Log levels

Levels order records from the gravest to the most detailed.
-/

namespace TwoWire.Log

/-- How grave a record is. -/
inductive Level
  | error
  | warn
  | info
  | debug
  deriving DecidableEq, Repr

namespace Level

/-- Position in the order, gravest first. -/
def rank : Level → Nat
  | error => 0
  | warn => 1
  | info => 2
  | debug => 3

/-- The word written in front of a record. -/
def tag : Level → String
  | error => "ERROR"
  | warn => "WARN"
  | info => "INFO"
  | debug => "DEBUG"

/-- The name used in diagnostics. -/
def name : Level → String
  | error => "Error"
  | warn => "Warn"
  | info => "Info"
  | debug => "Debug"

end Level

end TwoWire.Log
