import TwoWire.Proofs.Faultless
import TwoWire.Proofs.Session
import TwoWire.Proofs.Sim.Sound

/-!
# The engine keeps to the contract of the simulated controller

A simulated controller faults on an access that it does not know, and on a word that comes without
START while no phase is open. No session of an engine makes it do so, as long as the session makes
no direct accesses of its own: whatever state the controller is in when the session starts, each
access is one of the few that the engine makes (`Event.Regular`), and each word without START finds
a phase open (`engine_keeps_contract`).

That a request may be cut off anywhere is no exception. The words of a leg are queued without a wait
in between, so nothing but the end of the allowance comes between START and the words after it, and
the next request begins with a START of its own.
-/

namespace TwoWire

open Event
open Proc (Always Chained)
open RegisterBlock (Replays)

/-! ## Regular accesses -/

/-- The event is no access, or one of those that an engine makes of its registers. -/
def Event.Regular : Event → Prop
  | .read .byte offset _ => offset = Offset.status ∨ offset = Offset.rxFifo
  | .read .half _ _ | .read .word _ _ => False
  | .write .byte offset _ => offset = Offset.control ∨ offset = Offset.rxThreshold
  | .write .half offset _ => offset = Offset.txFifo
  | .write .word offset _ => offset = Offset.outputs
  | .sleep .. | .log .. | .call .. => True

/-- A trace of regular accesses that the registers answered as it shows. -/
def RegisterBlock.Regularly {β : Type} [RegisterBlock β] (before : β) (events : List Event)
    (after : β) : Prop :=
  Replays before events after ∧ ∀ event ∈ events, event.Regular

namespace RegisterBlock

variable {β : Type} [RegisterBlock β]

theorem chained_regularly : Chained (Regularly : β → List Event → β → Prop) := by
  refine ⟨fun _ => ⟨rfl, List.forall_mem_nil _⟩, ?_⟩
  rintro before mid after ev ev' ⟨hfirst, hregular⟩ ⟨hrest, hregular'⟩
  exact ⟨chained_replays.trans hfirst hrest, List.forall_mem_append.mpr ⟨hregular, hregular'⟩⟩

theorem regularly_record (block : β) (part : Part) (level : Log.Level) (text : String) :
    Regularly block [.log part level text] block :=
  ⟨rfl, List.forall_mem_singleton.mpr trivial⟩

theorem regularly_sleeps (block : β) (part : Part) (parts : List Nat) :
    Regularly block (parts.map (.sleep part)) block := by
  refine ⟨?_, fun event hmem => ?_⟩
  · rw [← replays_accesses, accesses_sleeps]
    rfl
  · obtain ⟨us, -, rfl⟩ := List.mem_map.mp hmem
    trivial

theorem always_load_regularly {width : Width} {offset : Nat}
    (hregular : ∀ value, (Event.read width offset value).Regular) :
    Always Regularly (load width offset : Proc β width.Value) := by
  refine always_load_of_read (fun _ => ⟨rfl, List.forall_mem_nil _⟩) fun hread => ?_
  exact ⟨⟨_, hread, rfl⟩, List.forall_mem_singleton.mpr (hregular _)⟩

theorem always_store_regularly {width : Width} {offset : Nat} {value : width.Value}
    (hregular : (Event.write width offset value).Regular) :
    Always Regularly (store width offset value : Proc β Unit) := by
  refine always_store_of_write (fun _ => ⟨rfl, List.forall_mem_nil _⟩) fun hwrite => ?_
  exact ⟨⟨_, hwrite, rfl⟩, List.forall_mem_singleton.mpr hregular⟩

end RegisterBlock

namespace Engine

open Log (Logger)
open RegisterBlock (Regularly chained_regularly always_load_regularly always_store_regularly)

variable {β κ : Type} [RegisterBlock β] {flaw : Fault → Prop}

/-- All accesses of an engine are regular, and its registers answered as they show. -/
def Regularly (engine : Engine β κ) (events : List Event) (after : Engine β κ) : Prop :=
  RegisterBlock.Regularly engine.registers events after.registers

theorem chained_regularly : Chained (Regularly : Engine β κ → List Event → Engine β κ → Prop) :=
  ⟨fun _ => RegisterBlock.chained_regularly.refl _, RegisterBlock.chained_regularly.trans⟩

theorem always_load_regularly {width : Width} {offset : Nat}
    (hregular : ∀ value, (Event.read width offset value).Regular) :
    Always Regularly (onRegisters (RegisterBlock.load width offset) : Proc (Engine β κ) _) :=
  (RegisterBlock.always_load_regularly hregular).zoom fun _ _ _ hrel => hrel

theorem always_store_regularly {width : Width} {offset : Nat} {value : width.Value}
    (hregular : (Event.write width offset value).Regular) :
    Always Regularly
      (onRegisters (RegisterBlock.store width offset value) : Proc (Engine β κ) Unit) :=
  (RegisterBlock.always_store_regularly hregular).zoom fun _ _ _ hrel => hrel

theorem always_status_regularly :
    Always Regularly (status : Proc (Engine β κ) Status) := by
  have hload : Always Regularly
      (onRegisters (RegisterBlock.load .byte Offset.status) : Proc (Engine β κ) UInt8) :=
    always_load_regularly fun _ => .inl rfl
  exact hload.bind chained_regularly fun _ => Proc.always_pure chained_regularly _

variable [Logger κ]

theorem always_log_regularly (level : Log.Level) (pieces : List String) :
    Always Regularly (log level pieces : Proc (Engine β κ) Unit) := by
  refine (Log.upholds_note (fun _ _ => True.intro) .engine level pieces).always.zoom ?_
  rintro engine _ _ rfl
  exact RegisterBlock.regularly_record engine.registers .engine level _

theorem leaves_regularly :
    Leaves (Regularly : Engine β κ → List Event → Engine β κ → Prop) where
  toChained := chained_regularly
  status := always_status_regularly
  popByte := always_load_regularly fun _ => .inr rfl
  log := always_log_regularly
  sleep us engine _ := RegisterBlock.regularly_sleeps engine.registers .engine (sleepParts us)
  pushWord _ := always_store_regularly rfl

theorem always_bringUp_regularly : Always Regularly (bringUp : Proc (Engine β κ) Unit) := by
  have hr : Chained (Regularly : Engine β κ → List Event → Engine β κ → Prop) := chained_regularly
  have hstore : ∀ offset value, offset = Offset.control ∨ offset = Offset.rxThreshold →
      Always Regularly
        (onRegisters (RegisterBlock.store .byte offset value) : Proc (Engine β κ) Unit) :=
    fun _ _ hoffset => always_store_regularly hoffset
  refine (Proc.always_get hr).bind hr fun engine => ?_
  refine (hstore Offset.rxThreshold _ (.inr rfl)).bind hr fun _ => ?_
  refine (hstore Offset.control _ (.inl rfl)).bind hr fun _ => ?_
  refine (hstore Offset.control _ (.inl rfl)).bind hr fun _ => ?_
  have hmark : Always Regularly
      (Proc.modify fun engine : Engine β κ => { engine with initialized := true }) :=
    fun engine _ => hr.refl engine
  exact hmark.bind hr fun _ => always_log_regularly _ _

/-- An engine over registers that do what they are asked makes regular accesses only. -/
theorem master_upholds_regularly (hregisters : Obliging β)
    (hlogger : ∀ cause, Log.Stalls κ cause → flaw cause) :
    Master.Upholds (Engine β κ) Regularly flaw where
  toChained := chained_regularly
  bringUp :=
    Proc.Upholds.bind chained_regularly
      ⟨always_bringUp_regularly, blames_bringUp hregisters hlogger⟩
      fun _ => Proc.upholds_pure chained_regularly _
  setOutputs value := ⟨always_store_regularly rfl, blames_setOutputs hregisters value⟩
  serve request := ⟨always_serve leaves_regularly request, blames_serve hregisters hlogger request⟩
  log engine part level text := RegisterBlock.regularly_record engine.registers part level text
  sleep engine us := RegisterBlock.regularly_sleeps engine.registers .codec (sleepParts us)

end Engine

/-! ## The controller -/

namespace Sim.Controller

variable {c last : Controller} {word : TxWord}

/-- The controller does all that an engine asks of it, in any state. -/
theorem obliging : Engine.Obliging Controller := by
  have hsound : Engine.Sound Controller Unit := Engine.sound_controller fun _ _ _ => ⟨(), rfl⟩
  exact ⟨hsound.status, hsound.rxFifo, fun _ _ => ⟨_, rfl⟩, fun _ _ => ⟨_, rfl⟩,
    fun _ _ => ⟨_, rfl⟩, hsound.words⟩

/-- A word without START is taken only while a phase is open. -/
theorem phase_ne_idle_of_accept (hok : c.accept word = .ok last) (hdata : word.isStart = false) :
    c.phase ≠ .idle := by
  intro hidle
  simp [accept, note, hdata, takePayload, hidle] at hok

/-- In a trace, a word without START comes while a phase is open. -/
theorem open_before_queue {before rest : List Event}
    (h : Replays c (before ++ queue word :: rest) last) :
    ∃ mid, Replays c before mid ∧ (word.isStart = false → mid.phase ≠ .idle) := by
  obtain ⟨mid, hbefore, hrest⟩ := RegisterBlock.replays_append.mp h
  obtain ⟨next, haccept, -⟩ := replays_queue hrest
  exact ⟨mid, hbefore, phase_ne_idle_of_accept haccept⟩

end Sim.Controller

/-! ## Sessions -/

/-- The command makes an access of its own. -/
def EngineCommand.isDirect : EngineCommand → Bool
  | .load .. | .store .. => true
  | _ => false

open Log (Stalls)
open Sim (Controller)

variable {κ κ' κ'' : Type} [Log.Logger κ] [Log.Logger κ'] [Log.Logger κ'']

/--
**A session of an engine never makes the controller fault**, whatever state it finds the controller
in. If it faults at all, a logger does. Each access is regular, and each word without START comes
while a phase is open.
-/
theorem engine_keeps_contract (rig : Rig (Engine Controller κ) κ' κ'')
    (commands : List (EngineCommand × Nat))
    (hcommands : ∀ command ∈ commands, command.1.isDirect = false) :
    let c := rig.frontEnd.hardware.registers
    let runs := play EngineCommand.perform rig commands
    let trace := runs.flatMap Exec.events
    (∀ run ∈ runs, ∀ cause, run.outcome = .error (.fault cause) →
        Stalls κ cause ∨ Stalls κ' cause ∨ Stalls κ'' cause)
      ∧ (∀ event ∈ trace, event.Regular)
      ∧ ∀ before word rest, trace = before ++ queue word :: rest →
        ∃ mid, Replays c before mid ∧ (word.isStart = false → mid.phase ≠ .idle) := by
  intro c runs trace
  let flaw (cause : Fault) : Prop := Stalls κ cause ∨ Stalls κ' cause ∨ Stalls κ'' cause
  have hmaster : Master.Upholds (Engine Controller κ) Engine.Regularly flaw :=
    Engine.master_upholds_regularly Controller.obliging fun _ => .inl
  have hstatus : Proc.Upholds Engine.Regularly flaw
      (Engine.status : Proc (Engine Controller κ) Status) :=
    ⟨Engine.always_status_regularly, Engine.blames_status Controller.obliging⟩
  have hperform : ∀ command ∈ commands,
      Proc.Upholds (Rig.OnHardware Engine.Regularly) flaw
        (command.1.perform : Proc (Rig (Engine Controller κ) κ' κ'') _) := by
    intro command hmem
    have hdirect := hcommands command hmem
    refine EngineCommand.upholds_perform (fun _ h => .inr (.inl h)) (fun _ h => .inr (.inr h))
      hmaster hstatus (fun _ engine => Engine.chained_regularly.refl engine) command.1 ?_ ?_
    · intro width offset heq
      rw [heq] at hdirect
      cases hdirect
    · intro width offset value heq
      rw [heq] at hdirect
      cases hdirect
  obtain ⟨hfaults, last, hreplays, hregular⟩ :=
    upholds_play (Rig.chained_onHardware Engine.chained_regularly) hperform rig
  refine ⟨hfaults, hregular, fun before word rest htrace => ?_⟩
  have hsplit : Replays c trace last.frontEnd.hardware.registers := hreplays
  rw [htrace] at hsplit
  exact Controller.open_before_queue hsplit

/-- A transfer that gives up between its legs holds the bus; what follows does not fault either. -/
theorem contract_kept_after_giving_up :
    let controller := (Controller.ofLatency 9 3).attach 0x20 1
    let engine : Engine Controller Unit := .ofParts ⟨15, .bounded 2 1⟩ controller ()
    let rig : Rig (Engine Controller Unit) Unit Unit := ⟨⟨engine, ()⟩, {}, ()⟩
    let commands : List (EngineCommand × Nat) :=
      [(.bus .bringUp, 3), (.bus (.serve (.transaction 0x20 [.read [0], .write [7]])), 99),
        (.status, 1), (.renew ⟨15, .bounded 2 1⟩, 0), (.bus .bringUp, 3),
        (.bus (.forward (.write 0x20 [8])), 99)]
    let runs := play EngineCommand.perform rig commands
    (∀ command ∈ commands, command.1.isDirect = false)
      ∧ (∀ run ∈ runs, ∀ cause, run.outcome ≠ .error (.fault cause))
      ∧ (runs.map fun run => run.outcome.toOption.isSome) = List.replicate 6 true
      ∧ ((runs.flatMap Exec.events).contains (queue (.data 1))) = true := by
  intro controller engine rig commands runs
  have hdirect : ∀ command ∈ commands, command.1.isDirect = false := by decide
  obtain ⟨hfaults, -, -⟩ := engine_keeps_contract rig commands hdirect
  have hsilent : ∀ cause, ¬Stalls Unit cause := by
    rintro cause ⟨level, pieces, logger, hrecord⟩
    cases hrecord
  refine ⟨hdirect, fun run hrun cause hfault => ?_, by cbv, by cbv⟩
  rcases hfaults run hrun cause hfault with h | h | h
  · exact hsilent cause h
  · exact hsilent cause h
  · exact hsilent cause h

end TwoWire
