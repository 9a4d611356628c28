import TwoWire.Error
import TwoWire.Operation
import TwoWire.RegisterMap
import TwoWire.TxWord

/-!
# The moves of a transfer

A transfer is carried out in elementary moves: waiting for a status flag, emptying the receive FIFO,
queueing a transmit word, taking a received byte. `Request.moves` checks a request and lays out its
moves, so that everything the hardware is to see is decided before it is touched.

Every transfer opens with a free bus, an empty transmit FIFO and an empty receive FIFO. A run of
writes is START with the address and then its bytes; a run of reads is START with the address, the
count, and then each byte as it comes. STOP goes with the last word of the last run. A transfer
that ends in a write waits for the transmit FIFO to empty and then for the bus to become free; one
that ends in a read waits for the bus only.
-/

namespace TwoWire

/-- An elementary step of a transfer. -/
inductive Move
  /-- Poll the status until the flag shows. -/
  | await (flag : Flag)
  /-- Take bytes out of the receive FIFO until it is empty. -/
  | drain
  /-- Queue a transmit word. -/
  | push (word : TxWord)
  /-- Take one byte out of the receive FIFO for the caller. -/
  | pop
  /-- Give up. -/
  | refuse (error : TransferError)
  deriving DecidableEq, Repr

namespace Move

/-- What every transfer starts with. -/
def opening : List Move := [await .busIdle, await .txEmpty, drain]

/-- What a transfer ends with, by the direction of its last run. -/
def closing : Direction → List Move
  | .write => [await .txEmpty, await .busIdle]
  | .read => [await .busIdle]

/-- Queues words one after another. -/
def pushAll (words : List TxWord) : List Move := words.map push

/-- Takes bytes for the caller, each as soon as there is one. -/
def receive : Nat → List Move
  | 0 => []
  | n + 1 => await .rxData :: pop :: receive n

/-- The payload of a count word, if the count fits. -/
def readCount (length : Nat) : Except TransferError UInt8 :=
  if length = 0 then .error .emptyBuffer
  else if maxReadLength < length then .error .bufferTooLong
  else .ok (UInt8.ofNat length)

/-- Requests a read of some bytes, or gives up if the count does not fit. -/
def requestRead (addr : UInt8) (length : Nat) (last : Bool) : List Move :=
  push (.start addr .read) ::
    match readCount length with
    | .error e => [refuse e]
    | .ok count => [push (.closing count last), await .txEmpty]

/-- Words of a run of writes after its address: each operation's bytes, STOP on the very last. -/
def payload (last : Bool) : List Operation → List TxWord
  | [] => []
  | [op] => TxWord.ofBytes op.sent last
  | op :: rest => TxWord.ofBytes op.sent false ++ payload last rest

/-- The direction of a run. -/
def direction : List Operation → Direction
  | .read _ :: _ => .read
  | _ => .write

/-- The moves of one run. -/
def ofRun (addr : UInt8) (last : Bool) (run : List Operation) : List Move :=
  match direction run with
  | .read =>
    requestRead addr (Operation.totalLength run) last
      ++ run.flatMap fun op => receive op.length
  | .write => push (.start addr .write) :: pushAll (payload last run)

/-- The moves of several runs, and what the last of them is followed by. -/
def ofRuns (addr : UInt8) : List (List Operation) → List Move
  | [] => []
  | [run] => ofRun addr true run ++ closing (direction run)
  | run :: rest => ofRun addr false run ++ ofRuns addr rest

end Move

/-! ## Checks and layout -/

/-- Accepts a run of reads that one count word can ask for, and any run of writes. -/
def Operation.checkRun (run : List Operation) : Except TransferError Unit :=
  match Move.direction run with
  | .write => .ok ()
  | .read => do let _ ← Move.readCount (totalLength run)

/-- Accepts operations of which none is empty and no run reads too much at once. -/
def Operation.check (ops : List Operation) : Except TransferError Unit :=
  if ops.any isEmpty then .error .emptyBuffer
  else (runs ops).forM checkRun

/-- The moves of a transaction; no operations, no moves. -/
def Operation.moves (addr : UInt8) (ops : List Operation) : Except TransferError (List Move) := do
  check ops
  return if ops.isEmpty then [] else Move.opening ++ Move.ofRuns addr (runs ops)

/-- The moves of a request, if it can be carried out. -/
def Request.moves : Request → Except TransferError (List Move)
  | .write addr bytes => Operation.moves addr [.write bytes]
  | .read addr buffer => Operation.moves addr [.read buffer]
  | .writeRead addr bytes buffer => Operation.moves addr [.write bytes, .read buffer]
  | .transaction addr ops => Operation.moves addr ops
  | .writeRegisters addr sub bytes =>
    if bytes.isEmpty then .error .emptyBuffer
    else .ok (Move.opening
      ++ Move.pushAll (.start addr .write :: (TxWord.ofBytes sub.bytes false
        ++ TxWord.ofBytes bytes true))
      ++ Move.closing .write)
  | .readRegisters addr sub buffer => do
    let count ← Move.readCount buffer.length
    return Move.opening
      ++ Move.pushAll (.start addr .write :: (TxWord.ofBytes sub.bytes false
        ++ [.start addr .read, .stop count]))
      ++ .await .txEmpty :: Move.receive buffer.length
      ++ Move.closing .read

end TwoWire
