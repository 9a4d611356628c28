import TwoWire.Status

/-!
# Transfer errors

Why a transfer on the bus did not succeed, with the texts that diagnostics show. Layers above a bus
master work with any error type that has such texts.
-/

namespace TwoWire

/-- An error type with the texts that diagnostics show. -/
class BusError (ε : Type) where
  /-- The name of the error. -/
  name : ε → String
  /-- The error in words. -/
  message : ε → String
  /-- The class of errors that it belongs to. -/
  kind : ε → String

/-- Why the engine refused or gave up a transfer. -/
inductive TransferError
  /-- A bounded wait ran out. -/
  | timeout (condition : Condition)
  /-- A transfer came before bring-up. -/
  | notInitialized
  /-- The slave address does not fit seven bits. -/
  | invalidAddress
  /-- A write or a read of no bytes. -/
  | emptyBuffer
  /-- A read longer than one count word can ask for. -/
  | bufferTooLong
  deriving DecidableEq, Repr

namespace TransferError

def name : TransferError → String
  | timeout condition => "Timeout(" ++ condition.name ++ ")"
  | notInitialized => "NotInitialized"
  | invalidAddress => "InvalidAddress"
  | emptyBuffer => "EmptyBuffer"
  | bufferTooLong => "BufferTooLong"

def message : TransferError → String
  | timeout condition => "timed out waiting for " ++ condition.name
  | notInitialized => "controller not initialized"
  | invalidAddress => "slave address out of 7-bit range"
  | emptyBuffer => "zero-length transfer"
  | bufferTooLong => "read longer than 255 bytes"

/-- The status register tells neither a missing acknowledge nor a lost arbitration. -/
instance : BusError TransferError where
  name := name
  message := message
  kind _ := "Other"

end TransferError

end TwoWire
