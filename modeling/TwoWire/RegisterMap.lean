/-!
# Register map of the bus controller

Byte offsets of the controller's registers, the bits of its control register, and the limits that
its FIFOs and its 7-bit addressing set.
-/

namespace TwoWire

/-! ## Offsets -/

namespace Offset

/-- Control register. -/
def control : Nat := 0x100

/-- Status register. -/
def status : Nat := 0x104

/-- Transmit FIFO: each 16-bit write queues one transmit word. -/
def txFifo : Nat := 0x108

/-- Receive FIFO: each read takes one byte out. -/
def rxFifo : Nat := 0x10C

/-- Fill level of the receive FIFO at which the controller raises its interrupt. -/
def rxThreshold : Nat := 0x120

/-- General purpose output lines. -/
def outputs : Nat := 0x124

end Offset

/-! ## Control bits -/

namespace Control

/-- The controller takes part in bus traffic. -/
def enable : UInt8 := 0x01

/-- The transmit FIFO is emptied. -/
def txReset : UInt8 := 0x02

end Control

/-! ## Limits -/

/-- Deepest receive threshold that the controller accepts. -/
def rxThresholdMax : UInt8 := 0x0F

/-- Bytes that the receive FIFO holds. -/
def rxFifoDepth : Nat := rxThresholdMax.toNat + 1

/-- Largest read that one count word can ask for. -/
def maxReadLength : Nat := 255

/-- Highest 7-bit slave address. -/
def maxAddress : UInt8 := 0x7F

end TwoWire
