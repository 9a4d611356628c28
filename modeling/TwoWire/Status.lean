/-!
# Controller status

The status register reports three flags that a transfer waits for. `Flag` names what is awaited of
one status reading; `Condition` names what a bounded wait can run out for, which besides the three
flags is the emptying of the receive FIFO and the lock of a codec's PLL.
-/

namespace TwoWire

/-- One reading of the status register. -/
structure Status where
  bits : UInt8
  deriving DecidableEq, Repr

namespace Status

def busyBit : UInt8 := 0x04

def rxEmptyBit : UInt8 := 0x40

def txEmptyBit : UInt8 := 0x80

/-- A transaction is in progress on the bus. -/
def busBusy (s : Status) : Bool := s.bits &&& busyBit != 0

/-- The receive FIFO holds no byte. -/
def rxEmpty (s : Status) : Bool := s.bits &&& rxEmptyBit != 0

/-- The transmit FIFO holds no word. -/
def txEmpty (s : Status) : Bool := s.bits &&& txEmptyBit != 0

/-- The reading that reports exactly the given flags. -/
def ofFlags (txEmpty busBusy rxEmpty : Bool) : Status :=
  ⟨(if txEmpty then txEmptyBit else 0) ||| (if busBusy then busyBit else 0)
    ||| (if rxEmpty then rxEmptyBit else 0)⟩

@[simp] theorem txEmpty_ofFlags (t b r : Bool) : (ofFlags t b r).txEmpty = t := by
  cases t <;> cases b <;> cases r <;> decide

@[simp] theorem busBusy_ofFlags (t b r : Bool) : (ofFlags t b r).busBusy = b := by
  cases t <;> cases b <;> cases r <;> decide

@[simp] theorem rxEmpty_ofFlags (t b r : Bool) : (ofFlags t b r).rxEmpty = r := by
  cases t <;> cases b <;> cases r <;> decide

end Status

/-! ## What is waited for -/

/-- Why a bounded wait was made. -/
inductive Condition
  | busIdle
  | txEmpty
  | rxData
  | rxDrained
  | pllLock
  deriving DecidableEq, Repr

/-- The name used in messages. -/
def Condition.name : Condition → String
  | busIdle => "BusIdle"
  | txEmpty => "TxEmpty"
  | rxData => "RxData"
  | rxDrained => "RxDrained"
  | pllLock => "PllLock"

/-- What one status reading can satisfy. -/
inductive Flag
  | busIdle
  | txEmpty
  | rxData
  deriving DecidableEq, Repr

namespace Flag

/-- The reading shows what is waited for. -/
def holds : Flag → Status → Bool
  | busIdle, s => !s.busBusy
  | txEmpty, s => s.txEmpty
  | rxData, s => !s.rxEmpty

/-- The condition reported when waiting for the flag runs out. -/
def condition : Flag → Condition
  | busIdle => .busIdle
  | txEmpty => .txEmpty
  | rxData => .rxData

end Flag

end TwoWire
