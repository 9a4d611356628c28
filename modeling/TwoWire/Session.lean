import TwoWire.Codec.BringUp
import TwoWire.Engine
import TwoWire.FrontEnd

/-!
# Sessions

A rig is a front end over a bus master, with a codec on that bus. A session is a list of commands
that act on a rig one after another, each under an allowance of its own, up to the first that halts.

`BusCommand` is what any bus master can be asked; `EngineCommand` adds what only an engine over
registers can be asked, such as direct accesses, or putting a fresh engine in the place of the old
one. Both work with any loggers. `BenchCommand` is for a rig whose loggers keep their records: it
asks for those, and replaces the codec together with its loggers.
-/

namespace TwoWire

open Log (Logger Recorder Console)

/-- A front end over a bus master, and a codec with its logger. -/
structure Rig (μ κ κ' : Type) where
  frontEnd : FrontEnd μ κ
  codec : Codec.Config
  codecLogger : κ'

namespace Rig

variable {μ κ κ' α : Type}

/-- Acts on the front end. -/
def onFrontEnd (p : Proc (FrontEnd μ κ) α) : Proc (Rig μ κ κ') α :=
  p.zoom Rig.frontEnd fun frontEnd rig => { rig with frontEnd }

/-- Acts on the bus master. -/
def onHardware (p : Proc μ α) : Proc (Rig μ κ κ') α := onFrontEnd (FrontEnd.onHardware p)

/-- Acts on the bus master and the codec's logger. -/
def onCodec (p : Proc (μ × κ') α) : Proc (Rig μ κ κ') α :=
  p.zoom (fun rig => (rig.frontEnd.hardware, rig.codecLogger))
    fun (hardware, codecLogger) rig =>
      { rig with frontEnd := { rig.frontEnd with hardware }, codecLogger }

end Rig

/-! ## Answers -/

/-- What a command answers. -/
inductive Answer (ε : Type)
  | done
  | truth (value : Bool)
  | number (value : Nat)
  | bytes (values : List UInt8)
  | pll (value : Codec.Pll)
  | status (value : Status)
  | config (value : Config)
  | codec (value : Codec.Config)
  /-- Whether the engine's, the front end's and the codec's logger heard something. -/
  | heard (engine frontEnd codec : Bool)
  /-- A served request: its result, and the caller's buffers after it. -/
  | served (result : Except ε Unit) (buffers : List (List UInt8))
  | failed (error : ε)
  | notBroughtUp (error : Codec.BringUpError ε)

namespace Answer

variable {ε α : Type}

/-- The answer of a result. -/
def ofResult (answer : α → Answer ε) : Except ε α → Answer ε
  | .ok a => answer a
  | .error e => failed e

/-- The answer of a result without a value. -/
def ofUnit (result : Except ε Unit) : Answer ε := ofResult (fun _ => done) result

/-- The answer of a served request. -/
def ofReply (request : Request) (reply : Reply ε) : Answer ε :=
  served reply.result (request.fill reply.received)

end Answer

/-! ## Commands for any bus master -/

/-- A command that any bus master can be given. -/
inductive BusCommand
  | bringUp
  | setOutputs (value : UInt32)
  | serve (request : Request)
  | writeRegister (addr : UInt8) (sub : SubAddress) (value : UInt8)
  | readRegister (addr : UInt8) (sub : SubAddress)
  | readMany (addr : UInt8) (sub : SubAddress) (count : Nat)
  /-- Through the front end. -/
  | forward (request : Request)
  | poke (offset value : UInt8)
  | pokeMany (offset : UInt8) (bytes : List UInt8)
  | peek (offset : UInt8)
  | peekMany (offset : UInt8) (buffer : List UInt8)
  | readPll
  | bringUpCodec
  | codecConfig
  deriving DecidableEq, Repr

namespace BusCommand

open Rig

variable {μ ε κ κ' : Type} [Master μ ε] [BusError ε] [Logger κ] [Logger κ']

/-- Carries out a command. -/
def perform : BusCommand → Proc (Rig μ κ κ') (Answer ε)
  | bringUp => return .ofUnit (← onHardware Master.bringUp)
  | setOutputs value => do
    onHardware (Master.setOutputs value)
    return .done
  | serve request => return .ofReply request (← onHardware (Master.serve request))
  | writeRegister addr sub value =>
    return .ofUnit (← onHardware (Master.writeRegister addr sub value))
  | readRegister addr sub =>
    return .ofResult (.number ·.toNat) (← onHardware (Master.readRegister addr sub))
  | readMany addr sub count =>
    return .ofResult .bytes (← onHardware (Master.readMany addr sub count))
  | forward request => return .ofReply request (← onFrontEnd (FrontEnd.serve request))
  | poke offset value => do
    return .ofUnit (← onHardware ((← Proc.get).codec.poke offset value))
  | pokeMany offset bytes => do
    return .ofUnit (← onHardware ((← Proc.get).codec.pokeMany offset bytes))
  | peek offset => do
    return .ofResult (.number ·.toNat) (← onHardware ((← Proc.get).codec.peek offset))
  | peekMany offset buffer => do
    let request := (← Proc.get).codec.peekRequest offset buffer
    return .ofReply request (← onHardware (Master.serve request))
  | readPll => do return .ofResult .pll (← onHardware (← Proc.get).codec.readPll)
  | bringUpCodec => do
    match ← onCodec (← Proc.get).codec.bringUp.run with
    | .ok () => return .done
    | .error error => return .notBroughtUp error
  | codecConfig => return .codec (← Proc.get).codec

end BusCommand

/-! ## Commands for an engine -/

/-- A command for an engine over registers. -/
inductive EngineCommand
  | bus (command : BusCommand)
  | isInitialized
  | status
  | config
  /-- Builds a new engine from the registers and the logger of the old one. -/
  | renew (settings : Config)
  | load (width : Width) (offset : Nat)
  | store (width : Width) (offset : Nat) (value : width.Value)
  deriving DecidableEq

namespace EngineCommand

open Rig

variable {β κ κ' κ'' : Type} [RegisterBlock β] [Logger κ] [Logger κ'] [Logger κ'']

/-- Carries out a command. -/
def perform : EngineCommand → Proc (Rig (Engine β κ) κ' κ'') (Answer TransferError)
  | bus command => command.perform
  | isInitialized => return .truth (← Proc.get).frontEnd.hardware.initialized
  | status => return .status (← onHardware Engine.status)
  | config => return .config (← Proc.get).frontEnd.hardware.config
  | renew settings => do
    onHardware (Proc.modify fun engine => .ofParts settings engine.registers engine.logger)
    return .done
  | load width offset => do
    let value ← onHardware (Engine.onRegisters (RegisterBlock.load width offset))
    return .number (width.toNat value)
  | store width offset value => do
    onHardware (Engine.onRegisters (RegisterBlock.store width offset value))
    return .done

end EngineCommand

/-! ## Commands for a bench -/

/-- An engine with a front end and a codec, the loggers of which keep every record. -/
abbrev Bench (μ : Type) : Type := Rig μ Recorder (Recorder × Option Console)

namespace Bench

/-- The loggers of a codec: one that keeps every record, and a console if a level is given. -/
def codecLoggers (console : Option Log.Level) : Recorder × Option Console :=
  (.empty, console.map fun level => ⟨level, .limited none none⟩)

/-- A bench with nothing logged yet. -/
def ofParts {μ : Type} (hardware : μ) (codec : Codec.Config) (console : Option Log.Level) :
    Bench μ :=
  ⟨⟨hardware, .empty⟩, codec, codecLoggers console⟩

/-- What the codec's console received. -/
def consoleBytes {μ : Type} (bench : Bench μ) : Option (List UInt8) :=
  bench.codecLogger.2.map (·.sink.taken)

end Bench

/-- A command for a bench with an engine over registers. -/
inductive BenchCommand
  | engine (command : EngineCommand)
  /-- Puts another codec with loggers of its own in the place of the old one. -/
  | renewCodec (codec : Codec.Config) (console : Option Log.Level)
  /-- Asks the loggers for a text in a record of a level. -/
  | heard (level : Log.Level) (text : String)
  deriving DecidableEq

namespace BenchCommand

variable {β : Type} [RegisterBlock β]

/-- Carries out a command. -/
def perform : BenchCommand → Proc (Bench (Engine β Recorder)) (Answer TransferError)
  | engine command => command.perform
  | renewCodec codec console => do
    Proc.modify fun bench => { bench with codec, codecLogger := Bench.codecLoggers console }
    return .done
  | heard level text => do
    let bench ← Proc.get
    return .heard (bench.frontEnd.hardware.logger.contains level text)
      (bench.frontEnd.logger.contains level text) (bench.codecLogger.1.contains level text)

end BenchCommand

/-! ## Playing a session -/

/-- Runs commands in order, each with its allowance, up to the first that halts. -/
def play {γ σ α : Type} (perform : γ → Proc σ α) (s : σ) : List (γ × Nat) → List (Exec σ α)
  | [] => []
  | (command, allowance) :: rest =>
    let step := (perform command).run s allowance
    match step.outcome with
    | .error _ => [step]
    | .ok _ => step :: play perform step.state rest

end TwoWire
