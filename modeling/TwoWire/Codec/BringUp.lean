import TwoWire.Codec.InitTable
import TwoWire.Codec.Pll
import TwoWire.Log.Note
import TwoWire.Master
import TwoWire.Poll

/-!
# Codec bring-up

The codec is reached through any bus master. Bringing it up reads the PLL block, writes the
configured one, waits for lock if the configured PLL is enabled, enables the core clock, and then
makes the writes of the init table in order. The first failure ends it; what was written before
stays written.
-/

namespace TwoWire.Codec

/-- How a codec is to be set up. -/
structure Config where
  address : UInt8 := defaultAddress
  pll : Pll := .disabled
  /-- Bound on the wait for lock. -/
  lockWait : WaitPolicy := .infinite
  /-- Value for the clock control register. -/
  clockControl : UInt8 := coreClockEnable
  table : List InitEntry := InitTable.reference
  deriving DecidableEq, Repr

/-- Why a codec could not be brought up. -/
inductive BringUpError (ε : Type)
  | bus (error : ε)
  | lockTimeout
  deriving DecidableEq, Repr

namespace BringUpError

variable {ε : Type} [BusError ε]

def name : BringUpError ε → String
  | bus error => "Bus(" ++ BusError.name error ++ ")"
  | lockTimeout => "PllLockTimeout"

def message : BringUpError ε → String
  | bus error => "codec bus error: " ++ BusError.message error
  | lockTimeout => "codec PLL did not lock"

end BringUpError

/-- The sub-address of a control register. -/
def subAddress (offset : UInt8) : SubAddress := .word (registerBase + offset.toUInt16)

namespace Config

variable {μ ε κ : Type} [Master μ ε]

/-! ## Single accesses -/

/-- Writes one control register. -/
def poke (c : Config) (offset value : UInt8) : Proc μ (Except ε Unit) :=
  Master.writeRegister c.address (subAddress offset) value

/-- Writes consecutive control registers. -/
def pokeMany (c : Config) (offset : UInt8) (bytes : List UInt8) : Proc μ (Except ε Unit) :=
  Master.writeRegisters c.address (subAddress offset) bytes

/-- Reads one control register. -/
def peek (c : Config) (offset : UInt8) : Proc μ (Except ε UInt8) :=
  Master.readRegister c.address (subAddress offset)

/-- The request that reads consecutive control registers into a buffer. -/
def peekRequest (c : Config) (offset : UInt8) (buffer : List UInt8) : Request :=
  .readRegisters c.address (subAddress offset) buffer

/-- Reads the PLL block. -/
def readPll (c : Config) : Proc μ (Except ε Pll) := do
  return (← Master.readMany c.address (subAddress Register.pll.offset) Pll.blockLength).map
    Pll.ofBlock

/-! ## The sequence -/

/-- A step of the sequence that uses the bus. -/
def onBus {α : Type} (p : Proc μ (Except ε α)) :
    ExceptT (BringUpError ε) (Proc (μ × κ)) α :=
  ExceptT.mk do return (← p.onFst).mapError .bus

variable [Log.Logger κ]

/-- A step of the sequence that logs. -/
def log (level : Log.Level) (pieces : List String) :
    ExceptT (BringUpError ε) (Proc (μ × κ)) Unit :=
  ExceptT.lift (Log.note .codec level pieces).onSnd

/-- Polls the PLL block until it shows lock. -/
def awaitLock (c : Config) : ExceptT (BringUpError ε) (Proc (μ × κ)) Unit := do
  log .info ["adau1761: waiting for pll lock"]
  let locked : Proc μ (Except ε Bool) := do return (← c.readPll).map (·.isLocked)
  if !(← onBus (pollUntil .codec c.lockWait locked)) then
    log .error ["adau1761: pll lock timeout"]
    throw .lockTimeout

/-- Makes the writes of a table in order. -/
def replay (c : Config) : List InitEntry → ExceptT (BringUpError ε) (Proc (μ × κ)) Unit
  | [] => return
  | entry :: rest => do
    onBus (c.poke entry.offset entry.value)
    c.replay rest

/-- Brings the codec from reset to its configured state. -/
def bringUp (c : Config) : ExceptT (BringUpError ε) (Proc (μ × κ)) Unit := do
  let current ← onBus c.readPll
  log .debug ["adau1761: pll block at reset ", Hex.listed current.toBlock]
  onBus (c.pokeMany Register.pll.offset c.pll.toBlock)
  if c.pll.isEnabled then c.awaitLock
  onBus (c.poke Register.clockControl.offset c.clockControl)
  c.replay c.table
  log .info ["adau1761: ", toString c.table.length, " registers initialised at ",
    Hex.marked 2 c.address.toNat]

end Config

end TwoWire.Codec
