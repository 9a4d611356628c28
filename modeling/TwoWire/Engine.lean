import TwoWire.Config
import TwoWire.Log.Note
import TwoWire.Master
import TwoWire.Move
import TwoWire.Poll
import TwoWire.RegisterBlock

/-!
# The bus engine

The engine drives one controller by polling: it owns the controller's registers, a logger and the
settings, and knows whether the controller has been brought up. A request is first checked against
the engine's state and by itself; then its moves are carried out one after another until one fails.

Every wait goes through the configured policy. Emptying the receive FIFO is a wait too: one poll
takes out at most as many bytes as the FIFO holds, so a controller whose FIFO never reports empty
runs into the policy like any other.
-/

namespace TwoWire

/-- A controller's driver: its settings, its registers and its logger. -/
structure Engine (β κ : Type) where
  config : Config
  /-- The controller has been brought up. -/
  initialized : Bool
  registers : β
  logger : κ

namespace Engine

open Log (Logger)

variable {β κ α : Type}

/-- An engine that has not been brought up. -/
def ofParts (config : Config) (registers : β) (logger : κ) : Engine β κ :=
  ⟨config, false, registers, logger⟩

/-- Acts on the registers. -/
def onRegisters (p : Proc β α) : Proc (Engine β κ) α :=
  p.zoom Engine.registers fun registers engine => { engine with registers }

variable [RegisterBlock β] [Logger κ]

/-- Hands a record to the logger. -/
def log (level : Log.Level) (pieces : List String) : Proc (Engine β κ) Unit :=
  (Log.note .engine level pieces).zoom Engine.logger fun logger engine => { engine with logger }

/-! ## Registers -/

/-- Reads the status register. -/
def status : Proc (Engine β κ) Status := do
  return ⟨← onRegisters (RegisterBlock.load .byte Offset.status)⟩

/-- Takes one byte out of the receive FIFO. -/
def popByte : Proc (Engine β κ) UInt8 :=
  onRegisters (RegisterBlock.load .byte Offset.rxFifo)

/-- Queues one transmit word. -/
def pushWord (word : TxWord) : Proc (Engine β κ) Unit :=
  onRegisters (RegisterBlock.store .half Offset.txFifo word.bits)

/-- Drives the output lines; possible at any time. -/
def setOutputs (value : UInt32) : Proc (Engine β κ) Unit :=
  onRegisters (RegisterBlock.store .word Offset.outputs value)

/--
Brings the controller up: programs the receive threshold, empties the transmit FIFO and enables the
controller.
-/
def bringUp : Proc (Engine β κ) Unit := do
  let engine ← Proc.get
  let depth := engine.config.rxThreshold
  onRegisters (RegisterBlock.store .byte Offset.rxThreshold depth)
  onRegisters (RegisterBlock.store .byte Offset.control Control.txReset)
  onRegisters (RegisterBlock.store .byte Offset.control Control.enable)
  Proc.modify fun engine => { engine with initialized := true }
  log .info ["axi-iic: enabled, rx threshold ", Hex.marked 2 depth.toNat]

/-! ## Waiting -/

/-- Gives up a wait, with the status at that moment in the log. -/
def timedOut (condition : Condition) : Proc (Engine β κ) (Except TransferError Unit) := do
  let status ← status
  log .error ["axi-iic: timeout waiting for ", condition.name, ", status ",
    Hex.marked 2 status.bits.toNat]
  return .error (.timeout condition)

/-- Waits until the status shows the flag. -/
def await (flag : Flag) : Proc (Engine β κ) (Except TransferError Unit) := do
  let policy := (← Proc.get).config.wait
  let ready : Proc (Engine β κ) (Except Empty Bool) := do
    return .ok (flag.holds (← status))
  match ← pollUntil .engine policy ready with
  | .ok true => return .ok ()
  | .ok false => timedOut flag.condition

/-- Takes out bytes until the receive FIFO reports empty, but at most `limit`; counts them. -/
def flush : Nat → Proc (Engine β κ) (Bool × Nat)
  | 0 => return (false, 0)
  | limit + 1 => do
    if (← status).rxEmpty then
      return (true, 0)
    else
      let _ ← popByte
      let (empty, count) ← flush limit
      return (empty, count + 1)

/-- Flushes once, and adds the bytes taken out to a running count. -/
def flushCounting : Proc (Engine β κ × Nat) (Except Empty Bool) := do
  let (empty, count) ← Proc.onFst (flush rxFifoDepth)
  Proc.modify fun (engine, total) => (engine, total + count)
  return .ok empty

/-- Largest count that a record of discarded bytes shows. -/
def maxDiscarded : Nat := 0xFFFFFFFF

/-- Empties the receive FIFO of what an earlier transfer left in it. -/
def drain : Proc (Engine β κ) (Except TransferError Unit) := do
  let policy := (← Proc.get).config.wait
  let (drained, count) ← Proc.withLocal 0 (pollUntil .engine policy flushCounting)
  if 0 < count then
    log .debug ["axi-iic: discarded ", toString (min count maxDiscarded), " stale rx bytes"]
  match drained with
  | .ok true => return .ok ()
  | .ok false => timedOut .rxDrained

/-! ## Transfers -/

/-- Carries out one move. -/
def perform : Move → Proc (Engine β κ) (Reply TransferError)
  | .await flag => return ⟨← await flag, []⟩
  | .drain => return ⟨← drain, []⟩
  | .push word => do
    pushWord word
    return ⟨.ok (), []⟩
  | .pop => return ⟨.ok (), [← popByte]⟩
  | .refuse error => return ⟨.error error, []⟩

/-- Carries out moves in order, up to the first that fails. -/
def performAll : List Move → Proc (Engine β κ) (Reply TransferError)
  | [] => return ⟨.ok (), []⟩
  | move :: rest => do
    let first ← perform move
    match first.result with
    | .error _ => return first
    | .ok () => first.followedBy <$> performAll rest

/-- Moves joined are carried out one part after the other, up to the first failure. -/
theorem performAll_append (xs ys : List Move) :
    (performAll (xs ++ ys) : Proc (Engine β κ) _) = (do
      let first ← performAll xs
      match first.result with
      | .error _ => return first
      | .ok () => first.followedBy <$> performAll ys) := by
  induction xs with
  | nil => simp [performAll, Reply.nil_followedBy]
  | cons move rest ih =>
    simp only [List.cons_append, performAll, bind_assoc, ih]
    congr 1
    funext first
    rcases hr : first.result with _ | _
    · simp [hr]
    · simp only [map_bind, bind_map_left]
      congr 1
      funext later
      rcases hl : later.result with _ | _
      · simp [hl, Reply.followedBy]
      · simp only [Reply.followedBy_followedBy, Functor.map_map, Function.comp_def]
        simp [hl, Reply.followedBy]

/-- Accepts an address that a transfer can go to now. -/
def checkTarget (engine : Engine β κ) (addr : UInt8) : Except TransferError Unit :=
  if !engine.initialized then .error .notInitialized
  else if maxAddress < addr then .error .invalidAddress
  else .ok ()

/-- The moves of a request, if the engine can carry it out now. -/
def plan (engine : Engine β κ) (request : Request) : Except TransferError (List Move) := do
  engine.checkTarget request.addr
  request.moves

/-- Serves a request. -/
def serve (request : Request) : Proc (Engine β κ) (Reply TransferError) := do
  match (← Proc.get).plan request with
  | .error error => return ⟨.error error, []⟩
  | .ok moves => performAll moves

instance : Master (Engine β κ) TransferError where
  bringUp := do
    bringUp
    return .ok ()
  setOutputs := setOutputs
  serve := serve

end Engine

end TwoWire
