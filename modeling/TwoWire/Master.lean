import TwoWire.Error
import TwoWire.Proc

/-!
# Bus masters

A bus master is a state that can be brought up, drives output lines, and serves requests. Serving
answers a `Reply`: the result, and the bytes received for the caller's buffers whatever the result
is. Reading and writing single registers is built from serving.
-/

namespace TwoWire

/-- How a request ended. -/
structure Reply (ε : Type) where
  result : Except ε Unit
  /-- Bytes stored into the caller's buffers, in order. -/
  received : List UInt8

/-- The reply when what gave `first` went on to what gave `later`. -/
def Reply.followedBy {ε : Type} (first later : Reply ε) : Reply ε :=
  ⟨later.result, first.received ++ later.received⟩

theorem Reply.nil_followedBy {ε : Type} :
    (⟨.ok (), []⟩ : Reply ε).followedBy = id := rfl

theorem Reply.followedBy_followedBy {ε : Type} (a b : Reply ε) :
    (a.followedBy b).followedBy = a.followedBy ∘ b.followedBy := by
  funext c
  simp [followedBy]

/-- A state that serves bus requests. -/
class Master (μ : Type) (ε : outParam Type) where
  bringUp : Proc μ (Except ε Unit)
  setOutputs : UInt32 → Proc μ Unit
  serve : Request → Proc μ (Reply ε)

namespace Master

variable {μ ε : Type} [Master μ ε]

/-- Writes consecutive registers. -/
def writeRegisters (addr : UInt8) (sub : SubAddress) (bytes : List UInt8) :
    Proc μ (Except ε Unit) := do
  return (← serve (.writeRegisters addr sub bytes)).result

/-- Writes one register. -/
def writeRegister (addr : UInt8) (sub : SubAddress) (value : UInt8) : Proc μ (Except ε Unit) :=
  writeRegisters addr sub [value]

/-- Reads consecutive registers into fresh zeros; gives bytes only if the whole read succeeded. -/
def readMany (addr : UInt8) (sub : SubAddress) (count : Nat) : Proc μ (Except ε (List UInt8)) := do
  let request := Request.readRegisters addr sub (List.replicate count 0)
  let reply ← serve request
  return reply.result.map fun _ => (request.fill reply.received).flatten

/-- Reads one register. -/
def readRegister (addr : UInt8) (sub : SubAddress) : Proc μ (Except ε UInt8) := do
  return (← readMany addr sub 1).map (·.headD 0)

end Master

end TwoWire
