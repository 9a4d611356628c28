import TwoWire.Proofs.Upholds
import TwoWire.Session

/-!
# What a session upholds

Whatever the commands of a session are, they ask the bus master for three things: to be brought up,
to drive its output lines, and to serve a request. What holds of those, and is indifferent to
records and to the pauses of the codec (`Master.Upholds`), holds of every command for any bus
master, and of bringing up the codec. Only two commands ask for anything but requests, so what holds
of requests (`Master.Serves`) holds of all others. An engine can be asked for more, and all of a
session follows from what its commands do (`upholds_play`).
-/

namespace TwoWire

open Proc (Chained Upholds)

variable {σ μ ε κ κ' α : Type} {flaw : Fault → Prop}

/-- What holds of all requests that a bus master serves, and of records and pauses in between. -/
structure Master.Serves (μ : Type) {ε : Type} [Master μ ε] (rel : μ → List Event → μ → Prop)
    (flaw : Fault → Prop) : Prop extends Chained rel where
  serve : ∀ request, Proc.Upholds rel flaw (Master.serve request : Proc μ (Reply ε))
  log : ∀ s part level text, rel s [.log part level text] s
  sleep : ∀ s us, rel s ((sleepParts us).map (.sleep .codec)) s

/-- What holds of all that a bus master is asked, and of records and pauses in between. -/
structure Master.Upholds (μ : Type) {ε : Type} [Master μ ε] (rel : μ → List Event → μ → Prop)
    (flaw : Fault → Prop) : Prop extends Master.Serves μ rel flaw where
  bringUp : Proc.Upholds rel flaw (Master.bringUp : Proc μ (Except ε Unit))
  setOutputs : ∀ value, Proc.Upholds rel flaw (Master.setOutputs value : Proc μ Unit)

/-- What follows from what is upheld is upheld too, if it composes. -/
theorem Master.Upholds.mono [Master μ ε] {rel rel' : μ → List Event → μ → Prop}
    (h : Master.Upholds μ rel flaw) (hr : Chained rel')
    (himp : ∀ s ev s', rel s ev s' → rel' s ev s') : Master.Upholds μ rel' flaw where
  toChained := hr
  bringUp := ⟨fun s n => himp _ _ _ (h.bringUp.always s n), h.bringUp.blames⟩
  setOutputs value :=
    ⟨fun s n => himp _ _ _ ((h.setOutputs value).always s n), (h.setOutputs value).blames⟩
  serve request :=
    ⟨fun s n => himp _ _ _ ((h.serve request).always s n), (h.serve request).blames⟩
  log s part level text := himp _ _ _ (h.log s part level text)
  sleep s us := himp _ _ _ (h.sleep s us)

section Master

variable [Master μ ε] {rel : μ → List Event → μ → Prop} (h : Master.Serves μ rel flaw)
include h

theorem upholds_writeRegisters (addr : UInt8) (sub : SubAddress) (bytes : List UInt8) :
    Upholds rel flaw (Master.writeRegisters addr sub bytes : Proc μ (Except ε Unit)) :=
  (h.serve _).bind h.toChained fun _ => Proc.upholds_pure h.toChained _

theorem upholds_readMany (addr : UInt8) (sub : SubAddress) (count : Nat) :
    Upholds rel flaw (Master.readMany addr sub count : Proc μ (Except ε (List UInt8))) :=
  (h.serve _).bind h.toChained fun _ => Proc.upholds_pure h.toChained _

theorem upholds_readRegister (addr : UInt8) (sub : SubAddress) :
    Upholds rel flaw (Master.readRegister addr sub : Proc μ (Except ε UInt8)) :=
  (upholds_readMany h addr sub 1).bind h.toChained fun _ => Proc.upholds_pure h.toChained _

end Master

/-! ## The codec -/

namespace Codec.Config

/-- What a step of the sequence does, its bus master does. -/
def OnBus (rel : μ → List Event → μ → Prop) (s : μ × κ) (ev : List Event) (s' : μ × κ) : Prop :=
  rel s.1 ev s'.1

variable {rel : μ → List Event → μ → Prop}

theorem upholds_onBus (hr : Chained rel) {p : Proc μ (Except ε α)} (hp : Upholds rel flaw p) :
    Upholds (OnBus rel) flaw
      (onBus p : ExceptT (BringUpError ε) (Proc (μ × κ)) α).run :=
  Upholds.bind hr.fst (hp.zoom fun _ _ _ hrel => hrel) fun _ => Proc.upholds_pure hr.fst _

variable [Master μ ε] (h : Master.Serves μ rel flaw)
include h

theorem upholds_readPll (c : Config) :
    Upholds rel flaw (c.readPll : Proc μ (Except ε Pll)) :=
  (upholds_readMany h _ _ _).bind h.toChained fun _ => Proc.upholds_pure h.toChained _

theorem upholds_poke (c : Config) (offset value : UInt8) :
    Upholds (OnBus rel) flaw
      (onBus (c.poke offset value) : ExceptT (BringUpError ε) (Proc (μ × κ)) Unit).run :=
  upholds_onBus h.toChained (upholds_writeRegisters h _ _ _)

theorem upholds_replay (c : Config) (table : List InitEntry) :
    Upholds (OnBus rel) flaw
      (c.replay table : ExceptT (BringUpError ε) (Proc (μ × κ)) Unit).run := by
  induction table with
  | nil => exact Proc.upholds_pure h.toChained.fst _
  | cons entry rest ih => exact (upholds_poke h c _ _).bind_except h.toChained.fst fun _ => ih

variable [Log.Logger κ] (hlogger : ∀ cause, Log.Stalls κ cause → flaw cause)
include hlogger

theorem upholds_log (level : Log.Level) (pieces : List String) :
    Upholds (OnBus rel) flaw
      (log level pieces : ExceptT (BringUpError ε) (Proc (μ × κ)) Unit).run := by
  refine Upholds.map ((Log.upholds_note hlogger .codec level pieces).zoom ?_)
  rintro s _ _ rfl
  exact h.log s.1 .codec level _

theorem upholds_awaitLock (c : Config) :
    Upholds (OnBus rel) flaw
      (c.awaitLock : ExceptT (BringUpError ε) (Proc (μ × κ)) Unit).run := by
  have hr := h.toChained.fst (τ := κ)
  have hlocked : Upholds rel flaw (do return (← c.readPll).map (·.isLocked) :
      Proc μ (Except ε Bool)) :=
    (upholds_readPll h c).bind h.toChained fun _ => Proc.upholds_pure h.toChained _
  unfold awaitLock
  refine (upholds_log h hlogger _ _).bind_except hr fun _ => ?_
  refine Upholds.bind_except hr (upholds_onBus h.toChained (Upholds.pollUntil h.toChained hlocked
    fun s => h.sleep s _)) fun locked => ?_
  cases locked with
  | true => exact Proc.upholds_pure hr _
  | false => exact (upholds_log h hlogger _ _).bind_except hr fun _ => Proc.upholds_pure hr _

/-- **What the bus master upholds, bringing up the codec upholds.** -/
theorem upholds_bringUp (c : Config) :
    Upholds (OnBus rel) flaw
      (c.bringUp : ExceptT (BringUpError ε) (Proc (μ × κ)) Unit).run := by
  have hr := h.toChained.fst (τ := κ)
  have hfinish : Upholds (OnBus rel) flaw (do
      onBus (c.poke Register.clockControl.offset c.clockControl)
      c.replay c.table
      log .info ["adau1761: ", toString c.table.length, " registers initialised at ",
        Hex.marked 2 c.address.toNat] :
        ExceptT (BringUpError ε) (Proc (μ × κ)) Unit).run :=
    (upholds_poke h c _ _).bind_except hr fun _ =>
      (upholds_replay h c _).bind_except hr fun _ => upholds_log h hlogger _ _
  unfold bringUp
  refine (upholds_onBus h.toChained (upholds_readPll h c)).bind_except hr fun current => ?_
  refine (upholds_log h hlogger _ _).bind_except hr fun _ => ?_
  refine (upholds_onBus h.toChained (upholds_writeRegisters h _ _ _)).bind_except hr fun _ => ?_
  cases c.pll.isEnabled with
  | false => exact hfinish
  | true => exact (upholds_awaitLock h hlogger c).bind_except hr fun _ => hfinish

end Codec.Config

/-! ## The front end -/

namespace FrontEnd

/-- What a front end does, its bus master does. -/
def OnHardware (rel : μ → List Event → μ → Prop) (frontEnd : FrontEnd μ κ) (ev : List Event)
    (frontEnd' : FrontEnd μ κ) : Prop :=
  rel frontEnd.hardware ev frontEnd'.hardware

variable {rel : μ → List Event → μ → Prop}

theorem chained_onHardware (hr : Chained rel) :
    Chained (OnHardware rel : FrontEnd μ κ → List Event → FrontEnd μ κ → Prop) :=
  ⟨fun frontEnd => hr.refl frontEnd.hardware, fun hab hbc => hr.trans hab hbc⟩

theorem upholds_onHardware {p : Proc μ α} (hp : Upholds rel flaw p) :
    Upholds (OnHardware rel) flaw (onHardware p : Proc (FrontEnd μ κ) α) :=
  hp.zoom fun _ _ _ hrel => hrel

/-- A failed request is reported before its reply is given back. -/
theorem upholds_serve [Master μ ε] [BusError ε] [Log.Logger κ] (h : Master.Serves μ rel flaw)
    (hlogger : ∀ cause, Log.Stalls κ cause → flaw cause) (request : Request) :
    Upholds (OnHardware rel) flaw (serve request : Proc (FrontEnd μ κ) (Reply ε)) := by
  have hr : Chained (OnHardware rel : FrontEnd μ κ → List Event → FrontEnd μ κ → Prop) :=
    chained_onHardware h.toChained
  refine (upholds_onHardware (h.serve request)).bind hr fun reply => ?_
  cases reply.result with
  | ok => exact Proc.upholds_pure hr reply
  | error error =>
    have hwarn : Upholds (OnHardware rel) flaw
        (warn request error : Proc (FrontEnd μ κ) Unit) := by
      unfold warn
      refine (Log.upholds_note hlogger .frontEnd .warn _).zoom ?_
      rintro frontEnd _ _ rfl
      exact h.log frontEnd.hardware .frontEnd .warn _
    exact hwarn.bind hr fun _ => Proc.upholds_pure hr reply

end FrontEnd

/-! ## Commands -/

namespace Rig

variable {κ'' : Type}

/-- What a rig does, its bus master does. -/
def OnHardware (rel : μ → List Event → μ → Prop) (rig : Rig μ κ κ') (ev : List Event)
    (rig' : Rig μ κ κ') : Prop :=
  rel rig.frontEnd.hardware ev rig'.frontEnd.hardware

variable {rel : μ → List Event → μ → Prop}

theorem chained_onHardware (hr : Chained rel) :
    Chained (OnHardware rel : Rig μ κ κ' → List Event → Rig μ κ κ' → Prop) :=
  ⟨fun rig => hr.refl rig.frontEnd.hardware, fun hab hbc => hr.trans hab hbc⟩

theorem upholds_onHardware {p : Proc μ α} (hp : Upholds rel flaw p) :
    Upholds (OnHardware rel) flaw (onHardware p : Proc (Rig μ κ κ') α) := by
  unfold onHardware onFrontEnd
  exact (FrontEnd.upholds_onHardware hp).zoom fun _ _ _ hrel => hrel

end Rig

section Commands

open Rig (OnHardware upholds_onHardware)

variable [Log.Logger κ] [Log.Logger κ'] (hlogger : ∀ cause, Log.Stalls κ cause → flaw cause)
  (hlogger' : ∀ cause, Log.Stalls κ' cause → flaw cause)

include hlogger hlogger'

/-- What holds of every request holds of every command; two of them ask for other things. -/
theorem BusCommand.upholds_perform_of [Master μ ε] [BusError ε] {rel : μ → List Event → μ → Prop}
    (h : Master.Serves μ rel flaw) (command : BusCommand)
    (hbringUp : command = .bringUp →
      Upholds rel flaw (Master.bringUp : Proc μ (Except ε Unit)))
    (houtputs : ∀ value, command = .setOutputs value →
      Upholds rel flaw (Master.setOutputs value : Proc μ Unit)) :
    Upholds (OnHardware rel) flaw (command.perform : Proc (Rig μ κ κ') (Answer ε)) := by
  have hr : Chained (OnHardware rel : Rig μ κ κ' → List Event → Rig μ κ κ' → Prop) :=
    Rig.chained_onHardware h.toChained
  have hdone : ∀ answer : Answer ε,
      Upholds (OnHardware rel) flaw (pure answer : Proc (Rig μ κ κ') (Answer ε)) :=
    Proc.upholds_pure hr
  have hserve : ∀ request, Upholds (OnHardware rel) flaw
      (Rig.onHardware (Master.serve request) : Proc (Rig μ κ κ') (Reply ε)) :=
    fun request => upholds_onHardware (h.serve request)
  have hask : ∀ f : Rig μ κ κ' → Proc (Rig μ κ κ') (Answer ε),
      (∀ rig, Upholds (OnHardware rel) flaw (f rig)) →
        Upholds (OnHardware rel) flaw (Proc.get >>= f) :=
    fun f hf => (Proc.upholds_get hr).bind hr hf
  cases command with
  | bringUp => exact (upholds_onHardware (hbringUp rfl)).bind hr fun _ => hdone _
  | setOutputs value =>
    exact (upholds_onHardware (houtputs value rfl)).bind hr fun _ => hdone _
  | serve request => exact (hserve request).bind hr fun _ => hdone _
  | writeRegister addr sub value =>
    exact (upholds_onHardware (upholds_writeRegisters h addr sub [value])).bind hr fun _ => hdone _
  | readRegister addr sub =>
    exact (upholds_onHardware (upholds_readRegister h addr sub)).bind hr fun _ => hdone _
  | readMany addr sub count =>
    exact (upholds_onHardware (upholds_readMany h addr sub count)).bind hr fun _ => hdone _
  | forward request =>
    have hforward : Upholds (OnHardware rel) flaw
        (Rig.onFrontEnd (FrontEnd.serve request) : Proc (Rig μ κ κ') (Reply ε)) :=
      (FrontEnd.upholds_serve h hlogger request).zoom fun _ _ _ hrel => hrel
    exact hforward.bind hr fun _ => hdone _
  | poke offset value =>
    refine hask _ fun rig => ?_
    exact (upholds_onHardware (upholds_writeRegisters h _ _ _)).bind hr fun _ => hdone _
  | pokeMany offset bytes =>
    refine hask _ fun rig => ?_
    exact (upholds_onHardware (upholds_writeRegisters h _ _ _)).bind hr fun _ => hdone _
  | peek offset =>
    refine hask _ fun rig => ?_
    exact (upholds_onHardware (upholds_readRegister h _ _)).bind hr fun _ => hdone _
  | peekMany offset buffer => exact hask _ fun rig => (hserve _).bind hr fun _ => hdone _
  | readPll =>
    refine hask _ fun rig => ?_
    exact (upholds_onHardware (Codec.Config.upholds_readPll h rig.codec)).bind hr fun _ => hdone _
  | bringUpCodec =>
    refine hask _ fun rig => ?_
    have hcodec : Upholds (OnHardware rel) flaw
        (Rig.onCodec rig.codec.bringUp.run : Proc (Rig μ κ κ') _) :=
      (Codec.Config.upholds_bringUp h hlogger' rig.codec).zoom fun _ _ _ hrel => hrel
    refine hcodec.bind hr fun result => ?_
    rcases result with error | _
    · exact hdone _
    · exact hdone _
  | codecConfig => exact hask _ fun rig => hdone _

/-- **What a bus master upholds, every command for it upholds.** -/
theorem BusCommand.upholds_perform [Master μ ε] [BusError ε] {rel : μ → List Event → μ → Prop}
    (h : Master.Upholds μ rel flaw) (command : BusCommand) :
    Upholds (OnHardware rel) flaw (command.perform : Proc (Rig μ κ κ') (Answer ε)) :=
  BusCommand.upholds_perform_of hlogger hlogger' h.toServes command (fun _ => h.bringUp)
    fun value _ => h.setOutputs value

section Engine

variable {β κ'' : Type} [RegisterBlock β] [Log.Logger κ'']
  {rel : Engine β κ'' → List Event → Engine β κ'' → Prop}

/-- What a command for an engine upholds, if it does so where it asks for more than a request. -/
theorem EngineCommand.upholds_perform_of (h : Master.Serves (Engine β κ'') rel flaw)
    (hstatus : Upholds rel flaw (Engine.status : Proc (Engine β κ'') Status))
    (command : EngineCommand)
    (hbringUp : command = .bus .bringUp →
      Upholds rel flaw (Master.bringUp : Proc (Engine β κ'') (Except TransferError Unit)))
    (houtputs : ∀ value, command = .bus (.setOutputs value) →
      Upholds rel flaw (Master.setOutputs value : Proc (Engine β κ'') Unit))
    (hrenew : ∀ settings, command = .renew settings →
      ∀ engine, rel engine [] (.ofParts settings engine.registers engine.logger))
    (hload : ∀ width offset, command = .load width offset → Upholds rel flaw
      (Engine.onRegisters (RegisterBlock.load width offset) : Proc (Engine β κ'') _))
    (hstore : ∀ width offset value, command = .store width offset value → Upholds rel flaw
      (Engine.onRegisters (RegisterBlock.store width offset value) : Proc (Engine β κ'') _)) :
    Upholds (OnHardware rel) flaw
      (command.perform : Proc (Rig (Engine β κ'') κ κ') (Answer TransferError)) := by
  have hr : Chained (OnHardware rel : Rig (Engine β κ'') κ κ' → List Event → _ → Prop) :=
    Rig.chained_onHardware h.toChained
  cases command with
  | bus command =>
    refine BusCommand.upholds_perform_of hlogger hlogger' h command ?_ ?_
    · rintro rfl
      exact hbringUp rfl
    · rintro value rfl
      exact houtputs value rfl
  | isInitialized => exact (Proc.upholds_get hr).bind hr fun _ => Proc.upholds_pure hr _
  | config => exact (Proc.upholds_get hr).bind hr fun _ => Proc.upholds_pure hr _
  | status => exact (upholds_onHardware hstatus).bind hr fun _ => Proc.upholds_pure hr _
  | renew settings =>
    refine Upholds.bind hr (upholds_onHardware ?_) fun _ => Proc.upholds_pure hr _
    exact Proc.upholds_modify (hrenew settings rfl)
  | load width offset =>
    exact (upholds_onHardware (hload width offset rfl)).bind hr fun _ => Proc.upholds_pure hr _
  | store width offset value =>
    refine Upholds.bind hr (upholds_onHardware ?_) fun _ => Proc.upholds_pure hr _
    exact hstore width offset value rfl

/-- What a command for an engine upholds; direct accesses have to uphold it by themselves. -/
theorem EngineCommand.upholds_perform (h : Master.Upholds (Engine β κ'') rel flaw)
    (hstatus : Upholds rel flaw (Engine.status : Proc (Engine β κ'') Status))
    (hrenew : ∀ settings engine, rel engine [] (.ofParts settings engine.registers engine.logger))
    (command : EngineCommand)
    (hload : ∀ width offset, command = .load width offset → Upholds rel flaw
      (Engine.onRegisters (RegisterBlock.load width offset) : Proc (Engine β κ'') _))
    (hstore : ∀ width offset value, command = .store width offset value → Upholds rel flaw
      (Engine.onRegisters (RegisterBlock.store width offset value) : Proc (Engine β κ'') _)) :
    Upholds (OnHardware rel) flaw
      (command.perform : Proc (Rig (Engine β κ'') κ κ') (Answer TransferError)) :=
  EngineCommand.upholds_perform_of hlogger hlogger' h.toServes hstatus command
    (fun _ => h.bringUp) (fun value _ => h.setOutputs value) (fun settings _ => hrenew settings)
    hload hstore

end Engine

end Commands

/-! ## Sessions -/

section Play

variable {γ : Type} {perform : γ → Proc σ α} {s : σ} {command : γ} {rest : List (γ × Nat)}
  {allowance : Nat}

/-- A command that halts is the last one. -/
theorem play_cons_of_error {halt : Halt}
    (h : (perform command s allowance).outcome = .error halt) :
    play perform s ((command, allowance) :: rest) = [perform command s allowance] := by
  simp only [play, Proc.run, h]

/-- A command that answers is followed by the others. -/
theorem play_cons_of_ok {a : α} (h : (perform command s allowance).outcome = .ok a) :
    play perform s ((command, allowance) :: rest) = perform command s allowance
      :: play perform (perform command s allowance).state rest := by
  simp only [play, Proc.run, h]

end Play

/-- **What every command upholds, the session upholds**, whatever its last command comes to. -/
theorem upholds_play {γ : Type} {rel : σ → List Event → σ → Prop} (hr : Chained rel)
    {perform : γ → Proc σ α} {commands : List (γ × Nat)}
    (h : ∀ command ∈ commands, Upholds rel flaw (perform command.1)) (s : σ) :
    (∀ run ∈ play perform s commands, ∀ cause, run.outcome = .error (.fault cause) → flaw cause)
      ∧ ∃ last, rel s ((play perform s commands).flatMap Exec.events) last := by
  induction commands generalizing s with
  | nil => exact ⟨fun _ hmem => (List.not_mem_nil hmem).elim, s, hr.refl s⟩
  | cons command rest ih =>
    obtain ⟨command, allowance⟩ := command
    obtain ⟨hfirst, hrest⟩ := List.forall_mem_cons.mp h
    have hrel := hfirst.always s allowance
    have hblames := hfirst.blames s allowance
    cases hout : (perform command s allowance).outcome with
    | error halt =>
      rw [play_cons_of_error hout]
      refine ⟨fun run hmem cause hfault => ?_, (perform command s allowance).state, ?_⟩
      · obtain rfl := List.mem_singleton.mp hmem
        exact hblames cause hfault
      · simpa using hrel
    | ok answer =>
      rw [play_cons_of_ok hout]
      obtain ⟨hfaults, last, hlast⟩ := ih hrest (perform command s allowance).state
      refine ⟨fun run hmem cause hfault => ?_, last, ?_⟩
      · rcases List.mem_cons.mp hmem with rfl | hlater
        · exact hblames cause hfault
        · exact hfaults run hlater cause hfault
      · rw [List.flatMap_cons]
        exact hr.trans hrel hlast

end TwoWire
