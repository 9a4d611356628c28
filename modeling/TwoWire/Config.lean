import TwoWire.RegisterMap
import TwoWire.Wait

/-!
# Controller settings

The settings of a controller are made from a draft, to which calls are applied one after another;
`Draft.build` cuts the receive threshold to what the controller accepts.
-/

namespace TwoWire

/-- Settings of a controller. -/
structure Config where
  /-- Receive threshold programmed at bring-up. -/
  rxThreshold : UInt8
  /-- Bound on every wait. -/
  wait : WaitPolicy
  deriving DecidableEq, Repr

namespace Config

/-- Settings under construction; any threshold may be asked for. -/
structure Draft where
  rxThreshold : UInt8 := rxThresholdMax
  wait : WaitPolicy := .infinite
  deriving DecidableEq, Repr

/-- A change to a draft. -/
inductive Setting
  | threshold (depth : UInt8)
  | wait (policy : WaitPolicy)
  | timeout (timeout interval : UInt32)
  deriving DecidableEq, Repr

namespace Draft

/-- The draft after one change. -/
def set (d : Draft) : Setting → Draft
  | .threshold depth => { d with rxThreshold := depth }
  | .wait policy => { d with wait := policy }
  | .timeout timeout interval => { d with wait := .bounded timeout interval }

/-- The finished settings. -/
def build (d : Draft) : Config where
  rxThreshold := min d.rxThreshold rxThresholdMax
  wait := d.wait

end Draft

/-- The settings after a sequence of changes to a fresh draft. -/
def ofSettings (settings : List Setting) : Config := (settings.foldl Draft.set {}).build

/-- Deepest threshold, waits without bound. -/
def standard : Config := ofSettings []

end Config

end TwoWire
