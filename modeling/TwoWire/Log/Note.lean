import TwoWire.Log.Logger
import TwoWire.Proc

/-!
# Logging from a procedure

A record shows as an event, and goes to the logger that the procedure acts on.
-/

namespace TwoWire.Log

variable {κ : Type} [Logger κ]

/-- Logs a record. -/
def note (part : Part) (level : Level) (pieces : List String) : Proc κ Unit := fun logger n =>
  let events := [Event.log part level (String.join pieces)]
  match Logger.record level pieces logger with
  | .error fault => ⟨events, .error (.fault fault), logger, n⟩
  | .ok logger => ⟨events, .ok (), logger, n⟩

end TwoWire.Log
