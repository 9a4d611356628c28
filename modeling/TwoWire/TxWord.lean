/-!
# Transmit words

A word of the transmit FIFO is a payload byte with two control bits: START, which makes the
payload an address byte, and STOP, which ends the transaction after the payload. A read is asked
for by an address byte with the read bit, followed by a word whose payload is the byte count.
-/

namespace TwoWire

/-- The direction bit that follows a 7-bit address on the bus. -/
inductive Direction
  | write
  | read
  deriving DecidableEq, Repr

/-- The bit itself. -/
def Direction.bit : Direction → UInt16
  | write => 0
  | read => 1

/-- One entry of the transmit FIFO. -/
structure TxWord where
  bits : UInt16
  deriving DecidableEq, Repr

namespace TxWord

def startBit : UInt16 := 0x100

def stopBit : UInt16 := 0x200

/-- START (or a repeated START) and the address byte. The address is not cut to seven bits. -/
def start (addr : UInt8) (dir : Direction) : TxWord :=
  ⟨startBit ||| (addr.toUInt16 <<< 1) ||| dir.bit⟩

/-- A byte with neither START nor STOP. -/
def data (byte : UInt8) : TxWord := ⟨byte.toUInt16⟩

/-- A byte after which the transaction ends. -/
def stop (byte : UInt8) : TxWord := ⟨stopBit ||| byte.toUInt16⟩

/-- A byte that ends the transaction if `last` is set. -/
def closing (byte : UInt8) (last : Bool) : TxWord := if last then stop byte else data byte

def payload (w : TxWord) : UInt8 := w.bits.toUInt8

def isStart (w : TxWord) : Bool := w.bits &&& startBit != 0

def isStop (w : TxWord) : Bool := w.bits &&& stopBit != 0

/-- The payloads of a run of bytes; the last one carries STOP if `last` is set. -/
def ofBytes (bytes : List UInt8) (last : Bool) : List TxWord :=
  match bytes with
  | [] => []
  | [b] => [closing b last]
  | b :: rest => data b :: ofBytes rest last

@[simp] theorem length_ofBytes (bytes : List UInt8) (last : Bool) :
    (ofBytes bytes last).length = bytes.length := by
  induction bytes with
  | nil => rfl
  | cons b rest ih => cases rest <;> simp_all [ofBytes]

end TxWord

end TwoWire
