import TwoWire.Fault
import TwoWire.Log.Line
import TwoWire.Log.Sink
import TwoWire.Trail

/-!
# Loggers

A logger takes records one by one: a level and the pieces of a message. It gives nothing back, so
what it does shows only in its own state, unless its sink stalls. There are a logger that drops
everything, one that keeps every record, one that writes lines to a sink, and pairs of loggers.
-/

namespace TwoWire.Log

/-- A state that takes log records. -/
class Logger (κ : Type) where
  record : Level → List String → κ → Except Fault κ

/-- The silent logger. -/
instance : Logger Unit where
  record _ _ _ := .ok ()

/-- A logger may be absent. -/
instance {κ : Type} [Logger κ] : Logger (Option κ) where
  record level pieces
    | none => .ok none
    | some logger => (Logger.record level pieces logger).map some

/-- Two loggers take every record, the first one first. -/
instance {κ₁ κ₂ : Type} [Logger κ₁] [Logger κ₂] : Logger (κ₁ × κ₂) where
  record level pieces loggers := do
    let first ← Logger.record level pieces loggers.1
    let second ← Logger.record level pieces loggers.2
    .ok (first, second)

/-! ## Keeping records -/

/-- A logger that keeps every record with its text. -/
structure Recorder where
  records : Trail (Level × String)
  deriving DecidableEq, Repr

namespace Recorder

def empty : Recorder := ⟨.empty⟩

instance : Logger Recorder where
  record level pieces recorder := .ok ⟨recorder.records.push (level, String.join pieces)⟩

/-- The text occurs somewhere in the other. -/
def occursIn (needle : List Char) : List Char → Bool
  | [] => needle.isEmpty
  | c :: rest => needle.isPrefixOf (c :: rest) || occursIn needle rest

/-- Some record of exactly this level contains the text. -/
def contains (recorder : Recorder) (level : Level) (needle : String) : Bool :=
  recorder.records.toList.any fun r => r.1 == level && occursIn needle.toList r.2.toList

end Recorder

/-! ## Writing lines -/

/-- A logger that writes records up to a level to a sink, a line each. -/
structure Console where
  maxLevel : Level
  sink : Sink

namespace Console

/-- The line and its ending are written apart, the ending even if the line could not be written. -/
def write (console : Console) (line : List UInt8) : Except Fault Console :=
  match console.sink.writeAll line with
  | (.stalled, _) => .error .sinkStalled
  | (_, sink) =>
    match sink.writeAll Line.ending with
    | (.stalled, _) => .error .sinkStalled
    | (_, sink) => .ok { console with sink }

instance : Logger Console where
  record level pieces console :=
    if level.rank ≤ console.maxLevel.rank then
      console.write (Line.encode (Line.ofRecord level pieces))
    else .ok console

end Console

end TwoWire.Log
