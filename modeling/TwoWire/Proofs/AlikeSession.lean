import Mathlib.Data.List.Forall2
import TwoWire.Proofs.AlikeEngine
import TwoWire.Proofs.Session

/-!
# Sessions that look alike

Output lines aside, whatever is built on a bus master asks it for two things only. If two masters do
those alike (`Master.DoesAlike`), then every command for a bus master looks alike on both, and
bringing up the codec does (`Codec.Config.alike_bringUp`). With the direct accesses this gives every
command for an engine (`EngineCommand.alike_perform`), and commands that look alike make sessions
that do (`forall₂_play`).
-/

namespace TwoWire

open Log (Logger)
open Proc (Alike Both)

variable {μ μ' ε α : Type}

/-- Bus masters that do alike what they are asked, the output lines aside. -/
structure Master.DoesAlike [Master μ ε] [Master μ' ε] (M : μ → μ' → Prop) : Prop where
  bringUp : Alike M (Master.bringUp : Proc μ (Except ε Unit)) Master.bringUp
  serve : ∀ request,
    Alike M (Master.serve request : Proc μ (Reply ε)) (Master.serve request : Proc μ' (Reply ε))

section Master

variable [Master μ ε] [Master μ' ε] {M : μ → μ' → Prop} (hM : Master.DoesAlike M)
include hM

theorem Master.alike_writeRegisters (addr : UInt8) (sub : SubAddress) (bytes : List UInt8) :
    Alike M (Master.writeRegisters addr sub bytes : Proc μ (Except ε Unit))
      (Master.writeRegisters addr sub bytes : Proc μ' (Except ε Unit)) :=
  (hM.serve _).bind fun _ => Proc.alike_pure _

theorem Master.alike_readMany (addr : UInt8) (sub : SubAddress) (count : Nat) :
    Alike M (Master.readMany addr sub count : Proc μ (Except ε (List UInt8)))
      (Master.readMany addr sub count : Proc μ' (Except ε (List UInt8))) :=
  (hM.serve _).bind fun _ => Proc.alike_pure _

theorem Master.alike_readRegister (addr : UInt8) (sub : SubAddress) :
    Alike M (Master.readRegister addr sub : Proc μ (Except ε UInt8))
      (Master.readRegister addr sub : Proc μ' (Except ε UInt8)) :=
  (Master.alike_readMany hM addr sub 1).bind fun _ => Proc.alike_pure _

end Master

/-! ## The codec -/

namespace Codec.Config

variable {κ κ' : Type} {M : μ → μ' → Prop} {L : κ → κ' → Prop}

theorem alike_onBus {p : Proc μ (Except ε α)} {p' : Proc μ' (Except ε α)} (hp : Alike M p p') :
    Alike (Both M L) (onBus p : ExceptT (BringUpError ε) (Proc (μ × κ)) α).run
      (onBus p' : ExceptT (BringUpError ε) (Proc (μ' × κ')) α).run :=
  hp.onFst.bind fun _ => Proc.alike_pure _

section Bus

variable [Master μ ε] [Master μ' ε] (hM : Master.DoesAlike M)
include hM

theorem alike_readPll (c : Config) :
    Alike M (c.readPll : Proc μ (Except ε Pll)) (c.readPll : Proc μ' (Except ε Pll)) :=
  (Master.alike_readMany hM _ _ _).bind fun _ => Proc.alike_pure _

theorem alike_poke (c : Config) (offset value : UInt8) : Alike (Both M L)
    (onBus (c.poke offset value) : ExceptT (BringUpError ε) (Proc (μ × κ)) Unit).run
    (onBus (c.poke offset value) : ExceptT (BringUpError ε) (Proc (μ' × κ')) Unit).run :=
  alike_onBus (Master.alike_writeRegisters hM _ _ _)

theorem alike_replay (c : Config) (table : List InitEntry) : Alike (Both M L)
    (c.replay table : ExceptT (BringUpError ε) (Proc (μ × κ)) Unit).run
    (c.replay table : ExceptT (BringUpError ε) (Proc (μ' × κ')) Unit).run := by
  induction table with
  | nil => exact Proc.alike_pure _
  | cons entry rest ih => exact (alike_poke hM c _ _).bind_except fun _ => ih

end Bus

variable [Logger κ] [Logger κ'] (hL : Log.TakesAlike L)
include hL

theorem alike_log (level : Log.Level) (pieces : List String) : Alike (Both M L)
    (log level pieces : ExceptT (BringUpError ε) (Proc (μ × κ)) Unit).run
    (log level pieces : ExceptT (BringUpError ε) (Proc (μ' × κ')) Unit).run :=
  (hL .codec level pieces).onSnd.map _

variable [Master μ ε] [Master μ' ε] (hM : Master.DoesAlike M)
include hM

theorem alike_awaitLock (c : Config) : Alike (Both M L)
    (c.awaitLock : ExceptT (BringUpError ε) (Proc (μ × κ)) Unit).run
    (c.awaitLock : ExceptT (BringUpError ε) (Proc (μ' × κ')) Unit).run := by
  have hlocked : Alike M
      (do return (← c.readPll).map (·.isLocked) : Proc μ (Except ε Bool))
      (do return (← c.readPll).map (·.isLocked) : Proc μ' (Except ε Bool)) :=
    (alike_readPll hM c).bind fun _ => Proc.alike_pure _
  unfold awaitLock
  refine (alike_log hL _ _).bind_except fun _ => ?_
  refine (alike_onBus (hlocked.pollUntil .codec c.lockWait)).bind_except fun locked => ?_
  cases locked with
  | true => exact Proc.alike_pure _
  | false => exact (alike_log hL _ _).bind_except fun _ => Proc.alike_pure _

/-- **Bringing up the codec looks alike** on masters and with loggers that do. -/
theorem alike_bringUp (c : Config) : Alike (Both M L)
    (c.bringUp : ExceptT (BringUpError ε) (Proc (μ × κ)) Unit).run
    (c.bringUp : ExceptT (BringUpError ε) (Proc (μ' × κ')) Unit).run := by
  -- The rest of the way is the same with the PLL on or off.
  have hfinish : Alike (Both M L)
      (do
        onBus (c.poke Register.clockControl.offset c.clockControl)
        c.replay c.table
        log .info ["adau1761: ", toString c.table.length, " registers initialised at ",
          Hex.marked 2 c.address.toNat] :
        ExceptT (BringUpError ε) (Proc (μ × κ)) Unit).run
      (do
        onBus (c.poke Register.clockControl.offset c.clockControl)
        c.replay c.table
        log .info ["adau1761: ", toString c.table.length, " registers initialised at ",
          Hex.marked 2 c.address.toNat] :
        ExceptT (BringUpError ε) (Proc (μ' × κ')) Unit).run :=
    (alike_poke hM c _ _).bind_except fun _ =>
      (alike_replay hM c _).bind_except fun _ => alike_log hL _ _
  unfold bringUp
  refine (alike_onBus (alike_readPll hM c)).bind_except fun current => ?_
  refine (alike_log hL _ _).bind_except fun _ => ?_
  refine (alike_onBus (Master.alike_writeRegisters hM _ _ _)).bind_except fun _ => ?_
  cases c.pll.isEnabled with
  | false => exact hfinish
  | true => exact (alike_awaitLock hL hM c).bind_except fun _ => hfinish

end Codec.Config

/-! ## Rigs -/

section Rigs

variable {κ κ' κc κc' : Type} {M : μ → μ' → Prop} {F : κ → κ' → Prop} {C : κc → κc' → Prop}

/-- Front ends over related masters and with related loggers. -/
structure FrontEnd.Matches (M : μ → μ' → Prop) (F : κ → κ' → Prop) (frontEnd : FrontEnd μ κ)
    (frontEnd' : FrontEnd μ' κ') : Prop where
  hardware : M frontEnd.hardware frontEnd'.hardware
  logger : F frontEnd.logger frontEnd'.logger

/-- Rigs with one codec, related front ends and related loggers of the codec. -/
structure Rig.Matches (M : μ → μ' → Prop) (F : κ → κ' → Prop) (C : κc → κc' → Prop)
    (rig : Rig μ κ κc) (rig' : Rig μ' κ' κc') : Prop where
  frontEnd : FrontEnd.Matches M F rig.frontEnd rig'.frontEnd
  codec : rig'.codec = rig.codec
  codecLogger : C rig.codecLogger rig'.codecLogger

theorem FrontEnd.alike_onHardware {p : Proc μ α} {p' : Proc μ' α} (hp : Alike M p p') :
    Alike (FrontEnd.Matches M F) (FrontEnd.onHardware p) (FrontEnd.onHardware p') :=
  hp.zoom (fun _ _ hfront => hfront.hardware) fun _ _ _ _ hfront hstate => ⟨hstate, hfront.logger⟩

theorem Rig.alike_onFrontEnd {p : Proc (FrontEnd μ κ) α} {p' : Proc (FrontEnd μ' κ') α}
    (hp : Alike (FrontEnd.Matches M F) p p') :
    Alike (Rig.Matches M F C) (Rig.onFrontEnd p) (Rig.onFrontEnd p') :=
  hp.zoom (fun _ _ hrig => hrig.frontEnd)
    fun _ _ _ _ hrig hstate => ⟨hstate, hrig.codec, hrig.codecLogger⟩

theorem Rig.alike_onHardware {p : Proc μ α} {p' : Proc μ' α} (hp : Alike M p p') :
    Alike (Rig.Matches M F C) (Rig.onHardware p) (Rig.onHardware p') :=
  Rig.alike_onFrontEnd (FrontEnd.alike_onHardware hp)

theorem Rig.alike_onCodec {p : Proc (μ × κc) α} {p' : Proc (μ' × κc') α}
    (hp : Alike (Both M C) p p') : Alike (Rig.Matches M F C) (Rig.onCodec p) (Rig.onCodec p') := by
  refine hp.zoom (fun _ _ hrig => ⟨hrig.frontEnd.hardware, hrig.codecLogger⟩) ?_
  intro rig rig' state state' hrig hstate
  exact ⟨⟨hstate.1, hrig.frontEnd.logger⟩, hrig.codec, hstate.2⟩

variable [Master μ ε] [Master μ' ε] (hM : Master.DoesAlike M)
variable [Logger κ] [Logger κ'] (hF : Log.TakesAlike F)
include hM hF

theorem FrontEnd.alike_serve [BusError ε] (request : Request) : Alike (FrontEnd.Matches M F)
    (FrontEnd.serve request : Proc (FrontEnd μ κ) (Reply ε))
    (FrontEnd.serve request : Proc (FrontEnd μ' κ') (Reply ε)) := by
  refine (FrontEnd.alike_onHardware (hM.serve request)).bind fun reply => ?_
  cases reply.result with
  | ok => exact Proc.alike_pure reply
  | error error =>
    have hwarn : Alike (FrontEnd.Matches M F)
        (FrontEnd.warn request error : Proc (FrontEnd μ κ) Unit)
        (FrontEnd.warn request error : Proc (FrontEnd μ' κ') Unit) := by
      unfold FrontEnd.warn
      refine (hF .frontEnd .warn _).zoom (fun _ _ hfront => hfront.logger) ?_
      exact fun _ _ _ _ hfront hlogger => ⟨hfront.hardware, hlogger⟩
    exact hwarn.bind fun _ => Proc.alike_pure reply

variable [Logger κc] [Logger κc'] (hC : Log.TakesAlike C)
include hC

/-- **Commands for a bus master look alike** on masters that do alike what they are asked. -/
theorem BusCommand.alike_perform [BusError ε] (command : BusCommand)
    (houtputs : ∀ value, command = .setOutputs value →
      Alike M (Master.setOutputs value : Proc μ Unit) (Master.setOutputs value : Proc μ' Unit)) :
    Alike (Rig.Matches M F C) (command.perform : Proc (Rig μ κ κc) (Answer ε))
      (command.perform : Proc (Rig μ' κ' κc') (Answer ε)) := by
  have hdone : ∀ answer : Answer ε, Alike (Rig.Matches M F C)
      (pure answer : Proc (Rig μ κ κc) (Answer ε)) (pure answer : Proc (Rig μ' κ' κc') _) :=
    Proc.alike_pure
  have hserve : ∀ request, Alike (Rig.Matches M F C)
      (Rig.onHardware (Master.serve request) : Proc (Rig μ κ κc) (Reply ε))
      (Rig.onHardware (Master.serve request) : Proc (Rig μ' κ' κc') (Reply ε)) :=
    fun request => Rig.alike_onHardware (hM.serve request)
  have hwrite : ∀ addr sub bytes, Alike (Rig.Matches M F C)
      (Rig.onHardware (Master.writeRegisters addr sub bytes) : Proc (Rig μ κ κc) (Except ε Unit))
      (Rig.onHardware (Master.writeRegisters addr sub bytes) : Proc (Rig μ' κ' κc') _) :=
    fun addr sub bytes => Rig.alike_onHardware (Master.alike_writeRegisters hM addr sub bytes)
  have hread : ∀ addr sub, Alike (Rig.Matches M F C)
      (Rig.onHardware (Master.readRegister addr sub) : Proc (Rig μ κ κc) (Except ε UInt8))
      (Rig.onHardware (Master.readRegister addr sub) : Proc (Rig μ' κ' κc') _) :=
    fun addr sub => Rig.alike_onHardware (Master.alike_readRegister hM addr sub)
  cases command with
  | bringUp => exact (Rig.alike_onHardware hM.bringUp).bind fun _ => hdone _
  | setOutputs value =>
    exact (Rig.alike_onHardware (houtputs value rfl)).bind fun _ => hdone _
  | serve request => exact (hserve request).bind fun _ => hdone _
  | writeRegister addr sub value => exact (hwrite addr sub [value]).bind fun _ => hdone _
  | readRegister addr sub => exact (hread addr sub).bind fun _ => hdone _
  | readMany addr sub count =>
    exact (Rig.alike_onHardware (Master.alike_readMany hM addr sub count)).bind fun _ => hdone _
  | forward request =>
    exact (Rig.alike_onFrontEnd (FrontEnd.alike_serve hM hF request)).bind fun _ => hdone _
  | poke offset value =>
    refine Proc.alike_get_bind fun rig rig' hrig => ?_
    rw [hrig.codec]
    exact (hwrite _ _ _).bind fun _ => hdone _
  | pokeMany offset bytes =>
    refine Proc.alike_get_bind fun rig rig' hrig => ?_
    rw [hrig.codec]
    exact (hwrite _ _ _).bind fun _ => hdone _
  | peek offset =>
    refine Proc.alike_get_bind fun rig rig' hrig => ?_
    rw [hrig.codec]
    exact (hread _ _).bind fun _ => hdone _
  | peekMany offset buffer =>
    refine Proc.alike_get_bind fun rig rig' hrig => ?_
    rw [hrig.codec]
    exact (hserve _).bind fun _ => hdone _
  | readPll =>
    refine Proc.alike_get_bind fun rig rig' hrig => ?_
    rw [hrig.codec]
    have hpll := Codec.Config.alike_readPll hM rig.codec
    exact (Rig.alike_onHardware hpll).bind fun _ => hdone _
  | bringUpCodec =>
    refine Proc.alike_get_bind fun rig rig' hrig => ?_
    rw [hrig.codec]
    have hcodec := Codec.Config.alike_bringUp hC hM rig.codec
    refine (Rig.alike_onCodec hcodec).bind fun result => ?_
    rcases result with error | _
    · exact hdone _
    · exact hdone _
  | codecConfig =>
    refine Proc.alike_get_bind fun rig rig' hrig => ?_
    rw [hrig.codec]
    exact hdone _

end Rigs

/-! ## Engines -/

/-- The command does not access the output lines. -/
def EngineCommand.sparesOutputs : EngineCommand → Bool
  | .bus (.setOutputs _) => false
  | .load .word offset => offset != Offset.outputs
  | .store .word offset _ => offset != Offset.outputs
  | _ => true

section Engines

variable {β β' κ κ' κf κf' κc κc' : Type} [RegisterBlock β] [RegisterBlock β'] [Logger κ]
  [Logger κ'] [Logger κf] [Logger κf'] [Logger κc] [Logger κc'] {R : β → β' → Prop}
  {L : κ → κ' → Prop} {F : κf → κf' → Prop} {C : κc → κc' → Prop}
  (hR : RegisterBlock.AnswersAlike R) (hL : Log.TakesAlike L)
include hR hL

theorem Engine.doesAlike : Master.DoesAlike (Engine.Matches R L) where
  bringUp := (Engine.alike_bringUp hR hL).bind fun _ => Proc.alike_pure _
  serve := Engine.alike_serve hR hL

/-- **Commands for an engine look alike**, those that access the output lines if these do. -/
theorem EngineCommand.alike_perform (hF : Log.TakesAlike F) (hC : Log.TakesAlike C)
    (command : EngineCommand)
    (houtputs : command.sparesOutputs = false → RegisterBlock.OutputsAlike R) :
    Alike (Rig.Matches (Engine.Matches R L) F C)
      (command.perform : Proc (Rig (Engine β κ) κf κc) (Answer TransferError))
      (command.perform : Proc (Rig (Engine β' κ') κf' κc') (Answer TransferError)) := by
  cases command with
  | bus command =>
    refine BusCommand.alike_perform (Engine.doesAlike hR hL) hF hC command ?_
    rintro value rfl
    exact Engine.alike_setOutputs (houtputs rfl) value
  | isInitialized =>
    refine Proc.alike_get_bind fun rig rig' hrig => ?_
    rw [hrig.frontEnd.hardware.initialized]
    exact Proc.alike_pure _
  | status => exact (Rig.alike_onHardware (Engine.alike_status hR)).bind fun _ => Proc.alike_pure _
  | config =>
    refine Proc.alike_get_bind fun rig rig' hrig => ?_
    rw [hrig.frontEnd.hardware.config]
    exact Proc.alike_pure _
  | renew settings =>
    refine Alike.bind (Rig.alike_onHardware (Proc.alike_modify ?_)) fun _ => Proc.alike_pure _
    exact fun _ _ hengine => ⟨rfl, rfl, hengine.registers, hengine.logger⟩
  | load width offset =>
    have hload : Alike R (RegisterBlock.load width offset : Proc β width.Value)
        (RegisterBlock.load width offset) := by
      -- `houtputs` is there for this one access only.
      by_cases haccess : (width, offset) = (.word, Offset.outputs)
      · obtain ⟨rfl, rfl⟩ := Prod.mk.inj haccess
        exact (houtputs rfl).load
      · exact hR.load width offset haccess
    exact (Rig.alike_onHardware (Engine.alike_onRegisters hload)).bind fun _ => Proc.alike_pure _
  | store width offset value =>
    have hstore : Alike R (RegisterBlock.store width offset value : Proc β Unit)
        (RegisterBlock.store width offset value) := by
      by_cases haccess : (width, offset) = (.word, Offset.outputs)
      · obtain ⟨rfl, rfl⟩ := Prod.mk.inj haccess
        exact (houtputs rfl).store value
      · exact hR.store width offset value haccess
    exact (Rig.alike_onHardware (Engine.alike_onRegisters hstore)).bind fun _ => Proc.alike_pure _

end Engines

/-! ## Sessions -/

/-- **Commands that look alike make sessions that do**: run by run, up to the same last one. -/
theorem forall₂_play {σ σ' γ : Type} {R : σ → σ' → Prop} {perform : γ → Proc σ α}
    {perform' : γ → Proc σ' α} {commands : List (γ × Nat)}
    (h : ∀ command ∈ commands, Alike R (perform command.1) (perform' command.1)) {s : σ} {s' : σ'}
    (hs : R s s') :
    List.Forall₂ (Exec.Alike R) (play perform s commands) (play perform' s' commands) := by
  induction commands generalizing s s' with
  | nil => exact .nil
  | cons command rest ih =>
    obtain ⟨command, allowance⟩ := command
    obtain ⟨hfirst, hrest⟩ := List.forall_mem_cons.mp h
    have hrun := hfirst hs allowance
    cases hout : (perform command s allowance).outcome with
    | error halt =>
      rw [play_cons_of_error hout, play_cons_of_error (hrun.outcome.trans hout)]
      exact .cons hrun .nil
    | ok answer =>
      rw [play_cons_of_ok hout, play_cons_of_ok (hrun.outcome.trans hout)]
      exact .cons hrun (ih hrest hrun.state)

end TwoWire
