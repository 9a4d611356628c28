import TwoWire.Log.Level
import TwoWire.Operation
import TwoWire.Width

/-!
# Events

What a run shows to the outside, in order: register accesses with their values, sleeps, log records,
and calls made on a bus master that stands in for hardware.
-/

namespace TwoWire

/-- The part of a driver that sleeps or logs. -/
inductive Part
  | engine
  | frontEnd
  | codec
  deriving DecidableEq, Repr

/-- A call on a bus master. -/
inductive Call
  | bringUp
  | setOutputs (value : UInt32)
  | serve (request : Request)
  deriving DecidableEq, Repr

/-- One observable step of a run. -/
inductive Event
  | read (width : Width) (offset : Nat) (value : width.Value)
  | write (width : Width) (offset : Nat) (value : width.Value)
  /-- One sleep of some nanoseconds. -/
  | sleep (part : Part) (ns : Nat)
  | log (part : Part) (level : Log.Level) (text : String)
  | call (call : Call)
  deriving DecidableEq

namespace Event

/-- The event is a register access. -/
def isAccess : Event → Bool
  | read .. | write .. => true
  | _ => false

/-- The nanoseconds of the sleeps that a part made, in order. -/
def sleeps (part : Part) (events : List Event) : List Nat :=
  events.filterMap fun
    | sleep who ns => if who = part then some ns else none
    | _ => none

end Event

end TwoWire
