import TwoWire.Session
import TwoWire.Sim.Controller

/-!
# Sessions with a simulated controller

Besides the commands for any bench, a session over a simulated controller can set the scene and look
at what the controller saw.
-/

namespace TwoWire.Sim

open Log (Recorder)

/-- A command for a bench over a simulated controller. -/
inductive Command
  | bench (command : BenchCommand)
  | attach (addr : UInt8) (width : Nat)
  | setRegisters (addr : UInt8) (register : UInt16) (bytes : List UInt8)
  | getRegisters (addr : UInt8) (register : UInt16) (count : Nat)
  | latch (addr : UInt8) (armed : Latch)
  | preload (bytes : List UInt8)
  | setStuck (stuck : Bool)
  | clear
  | accesses
  | transfers
  | txWords
  | scene
  deriving DecidableEq

/-- What a command answers. -/
inductive Answer
  | bench (answer : TwoWire.Answer TransferError)
  | done
  | registers (values : List (Option UInt8))
  | accesses (values : List Access)
  | transfers (values : List Transfer)
  | words (values : List TxWord)
  /-- Control bits, receive threshold, output lines and the number of bytes in the receive FIFO. -/
  | scene (control rxThreshold : UInt8) (outputs : UInt32) (rxPending : Nat)

namespace Answer

/-- The registers that can be seen from outside. -/
def ofScene (c : Controller) : Answer := scene c.controlBits c.rxThreshold c.outputs c.rx.size

end Answer

namespace Command

/-- Changes the controller. -/
def change (f : Controller → Controller) : Proc (Bench (Engine Controller Recorder)) Answer := do
  Rig.onHardware (Engine.onRegisters (Proc.modify f))
  return .done

/-- Looks at the controller. -/
def look (f : Controller → Answer) : Proc (Bench (Engine Controller Recorder)) Answer := do
  return f (← Proc.get).frontEnd.hardware.registers

/-- Carries out a command. -/
def perform : Command → Proc (Bench (Engine Controller Recorder)) Answer
  | bench command => return .bench (← command.perform)
  | attach addr width => change (·.attach addr width)
  | setRegisters addr register bytes => change (·.setRegisters addr register bytes)
  | getRegisters addr register count =>
    look fun c => .registers ((List.range count).map fun i =>
      c.register addr (register + UInt16.ofNat i))
  | latch addr armed => change (·.addLatch addr armed)
  | preload bytes => change (·.preload bytes)
  | setStuck stuck => change (·.setStuck stuck)
  | clear => change (·.clear)
  | accesses => look fun c => .accesses c.accesses
  | transfers => look fun c => .transfers c.transfers
  | txWords => look fun c => .words c.txWords
  | scene => look .ofScene

end Command

end TwoWire.Sim
