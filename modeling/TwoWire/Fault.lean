import TwoWire.Hex
import TwoWire.TxWord
import TwoWire.Width

/-!
# Faults and halts

A fault is a breach of contract by the surroundings of a driver: an access that the register block
does not know, a data word that the bus does not expect, a sink that takes nothing. A halt is the
end of a run without an answer: by a fault, or because the allowance of accesses is used up.
-/

namespace TwoWire

/-- A breach of contract that ends a run. -/
inductive Fault
  /-- A word without START came while no address phase was open. -/
  | wordOutsideTransaction (word : TxWord)
  | unexpectedRead (width : Width) (offset : Nat)
  | unexpectedWrite (width : Width) (offset : Nat)
  /-- A sink took none of the bytes offered. -/
  | sinkStalled
  deriving DecidableEq, Repr

namespace Fault

/-- An access in the words of a fault message. -/
def access (width : Width) (kind : String) (offset : Nat) : String :=
  "unexpected " ++ toString width.bits ++ "-bit " ++ kind ++ " at " ++ Hex.marked 1 offset

/-- The text of a fault. -/
def message : Fault → String
  | wordOutsideTransaction word =>
    "data word " ++ Hex.marked 3 word.bits.toNat ++ " outside a transaction"
  | unexpectedRead width offset => access width "read" offset
  | unexpectedWrite width offset => access width "write" offset
  | sinkStalled => "write() returned Ok(0)"

end Fault

/-- Why a run ended without an answer. -/
inductive Halt
  | fault (cause : Fault)
  /-- The allowance of accesses was used up. -/
  | exhausted
  deriving DecidableEq, Repr

end TwoWire
