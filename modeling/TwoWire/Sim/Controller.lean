import TwoWire.RegisterBlock
import TwoWire.RegisterMap
import TwoWire.Sim.Fifo
import TwoWire.Sim.Slave
import TwoWire.Status
import TwoWire.Trail
import TwoWire.TxWord

/-!
# A simulated controller

The controller interprets the transmit words it is given: START opens an address phase, further
words are bytes for the slave or the count of a read, STOP ends the transaction. A read puts all
its bytes into the receive FIFO at once; where no slave answers, they are all ones.

After a word was queued, a number of status readings report a transmit FIFO that is not empty; after
STOP, a number of further ones report a busy bus. Each status reading counts one of these down.

The controller keeps what it saw: the accesses in order, and the address phases as transfers.
-/

namespace TwoWire.Sim

/-- An access as the controller saw it. -/
inductive Access
  | control (value : UInt8)
  | rxThreshold (value : UInt8)
  | tx (word : TxWord)
  | rxPop (value : UInt8)
  | status (status : Status)
  | outputs (value : UInt32)
  deriving DecidableEq, Repr

/-- An address phase as the bus saw it. -/
inductive Transfer
  /-- All bytes after the address. -/
  | write (addr : UInt8) (bytes : List UInt8)
  | read (addr : UInt8) (length : Nat)
  deriving DecidableEq, Repr

/-- Where the transmit words have led. -/
inductive Phase
  | idle
  /-- Bytes for the slave; those that came so far. -/
  | writing (addr : UInt8) (bytes : Trail UInt8)
  /-- The next word is a count. -/
  | counting (addr : UInt8)
  deriving DecidableEq, Repr

/-- A simulated controller with the slaves on its bus. -/
structure Controller where
  /-- The accesses seen. -/
  seen : Trail Access
  /-- The address phases ended. -/
  ended : Trail Transfer
  /-- The slaves by their addresses. -/
  slaves : Std.ExtTreeMap UInt8 Slave
  /-- The receive FIFO. -/
  rx : Fifo UInt8
  phase : Phase
  inTransaction : Bool
  /-- Status readings that still report a transmit FIFO that is not empty. -/
  txPending : Nat
  /-- Status readings after those that still report a busy bus. -/
  busyHold : Nat
  txLatency : Nat
  stopLatency : Nat
  /-- The bus reports busy whatever happens. -/
  stuckBusy : Bool
  controlBits : UInt8
  rxThreshold : UInt8
  outputs : UInt32

namespace Controller

/-- A controller after power-on, without slaves. -/
def ofLatency (txLatency stopLatency : Nat) : Controller where
  seen := .empty
  ended := .empty
  slaves := ∅
  rx := .empty
  phase := .idle
  inTransaction := false
  txPending := 0
  busyHold := 0
  txLatency
  stopLatency
  stuckBusy := false
  controlBits := 0
  rxThreshold := 0
  outputs := 0

/-! ## Setting the scene -/

/-- Puts a slave at an address, in place of one that was there. -/
def setSlave (c : Controller) (addr : UInt8) (slave : Slave) : Controller :=
  { c with slaves := c.slaves.insert addr slave }

/-- Changes the slave at an address, if there is one. -/
def updateSlave (c : Controller) (addr : UInt8) (f : Slave → Slave) : Controller :=
  match c.slaves[addr]? with
  | none => c
  | some slave => c.setSlave addr (f slave)

/-- Puts a fresh slave at an address. -/
def attach (c : Controller) (addr : UInt8) (width : Nat) : Controller :=
  c.setSlave addr (.ofWidth width)

/-- Sets consecutive registers of a slave. -/
def setRegisters (c : Controller) (addr : UInt8) (register : UInt16) (bytes : List UInt8) :
    Controller :=
  c.updateSlave addr fun slave => { slave with file := slave.file.setAll register bytes }

/-- A register of a slave, if both are there. -/
def register (c : Controller) (addr : UInt8) (register : UInt16) : Option UInt8 :=
  c.slaves[addr]?.bind (·.file[register]?)

/-- Adds a latch to a slave. -/
def addLatch (c : Controller) (addr : UInt8) (latch : Latch) : Controller :=
  c.updateSlave addr fun slave => { slave with latches := slave.latches ++ [latch] }

/-- Leaves bytes in the receive FIFO. -/
def preload (c : Controller) (bytes : List UInt8) : Controller :=
  { c with rx := c.rx.append bytes }

/-- Makes the bus report busy for good, or stop doing so. -/
def setStuck (c : Controller) (stuck : Bool) : Controller := { c with stuckBusy := stuck }

/-! ## What was seen -/

/-- The accesses in order. -/
def accesses (c : Controller) : List Access := c.seen.toList

/-- The ended address phases in order. -/
def transfers (c : Controller) : List Transfer := c.ended.toList

/-- Forgets what was seen. -/
def clear (c : Controller) : Controller := { c with seen := .empty, ended := .empty }

/-- The transmit words seen. -/
def txWords (c : Controller) : List TxWord :=
  c.accesses.filterMap fun
    | .tx word => some word
    | _ => none

/-- Notes an access. -/
def note (c : Controller) (access : Access) : Controller := { c with seen := c.seen.push access }

@[simp] theorem accesses_note (c : Controller) (access : Access) :
    (c.note access).accesses = c.accesses ++ [access] := by simp [accesses, note]

/-- Notes an address phase that has ended. -/
def noteTransfer (c : Controller) (transfer : Transfer) : Controller :=
  { c with ended := c.ended.push transfer }

@[simp] theorem transfers_noteTransfer (c : Controller) (transfer : Transfer) :
    (c.noteTransfer transfer).transfers = c.transfers ++ [transfer] := by
  simp [transfers, noteTransfer]

/-! ## Status -/

/-- The bus reports busy. -/
def busy (c : Controller) : Bool := c.stuckBusy || c.inTransaction || 0 < c.busyHold

/-- What a status reading reports now. -/
def currentStatus (c : Controller) : Status := .ofFlags (c.txPending == 0) c.busy c.rx.isEmpty

/-- The counters after a status reading: the transmit FIFO empties before the bus becomes free. -/
def tick (c : Controller) : Controller :=
  if 0 < c.txPending then { c with txPending := c.txPending - 1 }
  else { c with busyHold := c.busyHold - 1 }

/-! ## Transmit words -/

/-- Ends a phase of writing and notes its transfer; other phases just end. -/
def closePhase (c : Controller) : Controller :=
  match c.phase with
  | .writing addr bytes => { c with phase := .idle }.noteTransfer (.write addr bytes.toList)
  | _ => { c with phase := .idle }

/-- Opens the phase of an address byte. -/
def openPhase (c : Controller) (addressByte : UInt8) : Controller :=
  let addr := addressByte >>> 1
  let c := { c.closePhase with inTransaction := true }
  if addressByte &&& 1 = 1 then { c with phase := .counting addr }
  else { c.updateSlave addr Slave.rewind with phase := .writing addr .empty }

/-- Reads bytes from the bus into the receive FIFO. -/
def fetch (c : Controller) (addr : UInt8) (count : Nat) : Controller :=
  match c.slaves[addr]? with
  | none => { c with rx := c.rx.append (List.replicate count 0xFF) }
  | some slave =>
    let (values, slave) := slave.readMany count
    { c.setSlave addr slave with rx := c.rx.append values }

/-- Takes the payload of a word without START; `none` if no phase is open. -/
def takePayload (c : Controller) (payload : UInt8) : Option Controller :=
  match c.phase with
  | .idle => none
  | .writing addr bytes =>
    some { c.updateSlave addr fun slave => slave.write bytes.size payload with
      phase := .writing addr (bytes.push payload) }
  | .counting addr =>
    some ({ c.fetch addr payload.toNat with phase := .idle }.noteTransfer
      (.read addr payload.toNat))

/-- Ends the transaction. -/
def endTransaction (c : Controller) : Controller :=
  { c.closePhase with inTransaction := false, busyHold := c.stopLatency }

/-- Takes a transmit word. -/
def accept (c : Controller) (word : TxWord) : Except Fault Controller :=
  let c := { c.note (.tx word) with txPending := c.txLatency }
  let taken := if word.isStart then some (c.openPhase word.payload) else c.takePayload word.payload
  match taken with
  | none => .error (.wordOutsideTransaction word)
  | some c => .ok (if word.isStop then c.endTransaction else c)

/-! ## Register accesses -/

def read (width : Width) (offset : Nat) (c : Controller) :
    Except Fault (width.Value × Controller) :=
  match width with
  | .byte =>
    if offset = Offset.status then
      .ok (c.currentStatus.bits, c.tick.note (.status c.currentStatus))
    else if offset = Offset.rxFifo then
      match c.rx.pop? with
      | none => .ok (0, c.note (.rxPop 0))
      | some (value, rx) => .ok (value, { c with rx }.note (.rxPop value))
    else if offset = Offset.control then .ok (c.controlBits, c)
    else .error (.unexpectedRead .byte offset)
  | .half => .error (.unexpectedRead .half offset)
  | .word =>
    if offset = Offset.outputs then .ok (c.outputs, c)
    else .error (.unexpectedRead .word offset)

def write (width : Width) (offset : Nat) (value : width.Value) (c : Controller) :
    Except Fault Controller :=
  match width with
  | .byte =>
    if offset = Offset.control then
      .ok ({ c with
        controlBits := value
        txPending := if value &&& Control.txReset != 0 then 0 else c.txPending }.note
          (.control value))
    else if offset = Offset.rxThreshold then
      .ok ({ c with rxThreshold := value }.note (.rxThreshold value))
    else .error (.unexpectedWrite .byte offset)
  | .half =>
    if offset = Offset.txFifo then c.accept ⟨value⟩
    else .error (.unexpectedWrite .half offset)
  | .word =>
    if offset = Offset.outputs then
      .ok ({ c with outputs := value }.note (.outputs value))
    else .error (.unexpectedWrite .word offset)

instance : RegisterBlock Controller where
  read := read
  write := write

end Controller

end TwoWire.Sim
