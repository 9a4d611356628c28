import Mathlib
import TwoWire.Proofs.AlikeSession
import TwoWire.Sim.Controller

/-!
# Loggers have no influence

A record gives nothing back. So all that a logger can do to a session is to end it, by a sink that
takes nothing and does not fail either. Loggers without such a sink are `Log.Attachable`: they take
every record, even if the line is cut short by a failing sink (`Log.Attachable.record`).

* `session_indifferent_to_loggers` — whatever such loggers are attached, a session shows the same
  events, gives the same answers and leaves the same engine
-/

namespace TwoWire

open Proc (Alike)

namespace Log

variable {κ κ' : Type}

namespace Sink

/-- Every call fails or takes at least one byte, if any is offered. -/
def Advances (sink : Sink) : Prop := ∀ call, sink.behaviour call ≠ .upTo 0

/-- Writing changes what was taken, not how later calls behave. -/
theorem behaviour_writeAll (sink : Sink) (bytes : List UInt8) :
    (sink.writeAll bytes).2.behaviour = sink.behaviour := by
  fun_induction writeAll sink bytes with
  | case1 => rfl
  | case2 => rfl
  | case3 => rfl
  | case4 sink b rest limit hcall ih => exact ih

/-- Writing to a sink that advances comes to an end. -/
theorem Advances.writeAll_ne_stalled {sink : Sink} (h : sink.Advances) (bytes : List UInt8) :
    (sink.writeAll bytes).1 ≠ .stalled := by
  fun_induction writeAll sink bytes with
  | case1 => exact nofun
  | case2 => exact nofun
  | case3 sink b rest hcall => exact absurd hcall (h sink.calls)
  | case4 sink b rest limit hcall ih => exact ih h

end Sink

/-- A sink that advances lets every line pass, whole or not. -/
theorem Console.exists_write {console : Console} (h : console.sink.Advances) (line : List UInt8) :
    ∃ after, console.write line = .ok after ∧ after.sink.Advances := by
  have hline := h.writeAll_ne_stalled line
  have hadvances : (console.sink.writeAll line).2.Advances := by
    intro call
    rw [Sink.behaviour_writeAll]
    exact h call
  have hending := hadvances.writeAll_ne_stalled Line.ending
  have hafter : ((console.sink.writeAll line).2.writeAll Line.ending).2.Advances := by
    intro call
    rw [Sink.behaviour_writeAll]
    exact hadvances call
  unfold Console.write
  split
  · next sink heq => exact absurd (congrArg Prod.fst heq) hline
  · next written sink _ heq =>
    rw [heq] at hending hafter
    split
    · next sink' heq' => exact absurd (congrArg Prod.fst heq') hending
    · next written' sink' _ heq' =>
      rw [heq'] at hafter
      exact ⟨_, rfl, hafter⟩

/-- A logger that drops or keeps its records, or writes them to a sink that advances. -/
inductive Attachable : {κ : Type} → [Logger κ] → κ → Prop
  | silent : Attachable ()
  | recorder (recorder : Recorder) : Attachable recorder
  | console {console : Console} (h : console.sink.Advances) : Attachable console
  | absent {κ : Type} [Logger κ] : Attachable (none : Option κ)
  | present {κ : Type} [Logger κ] {logger : κ} (h : Attachable logger) : Attachable (some logger)
  | pair {κ₁ κ₂ : Type} [Logger κ₁] [Logger κ₂] {logger₁ : κ₁} {logger₂ : κ₂}
      (h₁ : Attachable logger₁) (h₂ : Attachable logger₂) : Attachable (logger₁, logger₂)

/-- Attachable loggers take every record, and stay attachable. -/
theorem Attachable.record [Logger κ] {logger : κ} (h : Attachable logger) (level : Level)
    (pieces : List String) :
    ∃ after, Logger.record level pieces logger = .ok after ∧ Attachable after := by
  induction h with
  | silent => exact ⟨(), rfl, .silent⟩
  | recorder recorder => exact ⟨_, rfl, .recorder _⟩
  | @console console h =>
    show ∃ after, (if level.rank ≤ console.maxLevel.rank then
      console.write (Line.encode (Line.ofRecord level pieces)) else .ok console) = .ok after ∧ _
    split
    · obtain ⟨after, hwrite, hafter⟩ := Console.exists_write h _
      exact ⟨after, hwrite, .console hafter⟩
    · exact ⟨console, rfl, .console h⟩
  | absent => exact ⟨none, rfl, .absent⟩
  | @present _ _ logger _ ih =>
    obtain ⟨after, hrecord, hafter⟩ := ih
    refine ⟨some after, ?_, .present hafter⟩
    show (Logger.record level pieces logger).map some = .ok (some after)
    rw [hrecord]
    rfl
  | @pair _ _ _ _ logger₁ logger₂ _ _ ih₁ ih₂ =>
    obtain ⟨after₁, hrecord₁, hafter₁⟩ := ih₁
    obtain ⟨after₂, hrecord₂, hafter₂⟩ := ih₂
    refine ⟨(after₁, after₂), ?_, .pair hafter₁ hafter₂⟩
    show (do
      let first ← Logger.record level pieces logger₁
      let second ← Logger.record level pieces logger₂
      .ok (first, second)) = Except.ok (after₁, after₂)
    rw [hrecord₁, hrecord₂]
    rfl

/-- Both loggers are attachable. -/
def BothAttachable [Logger κ] [Logger κ'] (logger : κ) (logger' : κ') : Prop :=
  Attachable logger ∧ Attachable logger'

theorem takesAlike_bothAttachable [Logger κ] [Logger κ'] :
    TakesAlike (BothAttachable : κ → κ' → Prop) := by
  rintro part level pieces logger logger' ⟨h, h'⟩ n
  obtain ⟨after, hrecord, hafter⟩ := h.record level pieces
  obtain ⟨after', hrecord', hafter'⟩ := h'.record level pieces
  unfold note
  simp only [hrecord, hrecord']
  exact ⟨rfl, rfl, ⟨hafter, hafter'⟩, rfl⟩

end Log

open Log (Logger Attachable BothAttachable)

variable {β κ κ' κf κf' κc κc' : Type}

/-- Rigs that differ in their loggers at most. -/
structure Rig.SameButLoggers (rig : Rig (Engine β κ) κf κc) (rig' : Rig (Engine β κ') κf' κc') :
    Prop where
  config : rig'.frontEnd.hardware.config = rig.frontEnd.hardware.config
  initialized : rig'.frontEnd.hardware.initialized = rig.frontEnd.hardware.initialized
  registers : rig'.frontEnd.hardware.registers = rig.frontEnd.hardware.registers
  codec : rig'.codec = rig.codec

variable [Logger κ] [Logger κ'] [Logger κf] [Logger κf'] [Logger κc] [Logger κc']

/-- All loggers of a rig are attachable. -/
structure Rig.Attaches (rig : Rig (Engine β κ) κf κc) : Prop where
  engine : Attachable rig.frontEnd.hardware.logger
  frontEnd : Attachable rig.frontEnd.logger
  codec : Attachable rig.codecLogger

/--
**Attached loggers have no influence on a session.**

Whatever commands are given, with timeouts and faults, the second session has the runs of the first
one: the same accesses, delays and records in the same order, and the same answers with the same
buffers. The loggers may be silent, keep records or write lines to a sink, of any level and in
chunks of any size, and any calls to that sink may fail.
-/
theorem session_indifferent_to_loggers [RegisterBlock β] {rig : Rig (Engine β κ) κf κc}
    {rig' : Rig (Engine β κ') κf' κc'} (hsame : rig.SameButLoggers rig') (hrig : rig.Attaches)
    (hrig' : rig'.Attaches) (commands : List (EngineCommand × Nat)) :
    List.Forall₂ (Exec.Alike Rig.SameButLoggers) (play EngineCommand.perform rig commands)
      (play EngineCommand.perform rig' commands) := by
  have hregisters : RegisterBlock.AnswersAlike (Eq : β → β → Prop) :=
    ⟨fun _ _ _ => Proc.alike_self _, fun _ _ _ _ => Proc.alike_self _⟩
  have houtputs : RegisterBlock.OutputsAlike (Eq : β → β → Prop) :=
    ⟨Proc.alike_self _, fun _ => Proc.alike_self _⟩
  have hmatches : Rig.Matches (Engine.Matches Eq BothAttachable) BothAttachable BothAttachable
      rig rig' := by
    constructor
    · constructor
      · exact ⟨hsame.config, hsame.initialized, hsame.registers.symm, hrig.engine, hrig'.engine⟩
      · exact ⟨hrig.frontEnd, hrig'.frontEnd⟩
    · exact hsame.codec
    · exact ⟨hrig.codec, hrig'.codec⟩
  have hplay : List.Forall₂
      (Exec.Alike (Rig.Matches (Engine.Matches Eq BothAttachable) BothAttachable BothAttachable))
      (play EngineCommand.perform rig commands) (play EngineCommand.perform rig' commands) :=
    forall₂_play (fun command _ => EngineCommand.alike_perform hregisters
      Log.takesAlike_bothAttachable Log.takesAlike_bothAttachable Log.takesAlike_bothAttachable
      command.1 fun _ => houtputs) hmatches
  refine hplay.imp fun one other h => ⟨h.events, h.outcome, ?_, h.left⟩
  have hengine := h.state.frontEnd.hardware
  exact ⟨hengine.config, hengine.initialized, hengine.registers.symm, h.state.codec⟩

/-- Silent loggers, or a recorder and consoles whose fifth call fails: the lock is missed alike. -/
theorem failing_consoles_go_unnoticed :
    let console : Log.Console := ⟨.debug, .limited (some 3) (some 4)⟩
    let controller := (Sim.Controller.ofLatency 0 0).attach 0x3B 2
    let codec : Codec.Config := { pll := ⟨1, 0, 0x20, 1⟩, lockWait := .bounded 1 1 }
    let rig : Rig (Engine Sim.Controller Unit) Unit Unit :=
      ⟨⟨.ofParts ⟨15, .bounded 2 1⟩ controller (), ()⟩, codec, ()⟩
    let rig' : Rig (Engine Sim.Controller Log.Recorder) Log.Console Log.Console :=
      ⟨⟨.ofParts ⟨15, .bounded 2 1⟩ controller .empty, console⟩, codec, console⟩
    let commands : List (EngineCommand × Nat) :=
      [(.bus .bringUp, 3), (.bus .bringUpCodec, 999), (.bus (.forward (.read 0x3B [])), 9)]
    let runs := play EngineCommand.perform rig commands
    let runs' := play EngineCommand.perform rig' commands
    rig.SameButLoggers rig' ∧ rig.Attaches ∧ rig'.Attaches
      ∧ List.Forall₂ (Exec.Alike Rig.SameButLoggers) runs runs'
      ∧ runs.map Exec.outcome = [.ok .done, .ok (.notBroughtUp .lockTimeout),
        .ok (.served (.error .emptyBuffer) [[]])] := by
  intro console controller codec rig rig' commands runs runs'
  have hconsole : console.sink.Advances := by
    intro call
    show (if some 4 = some call then Log.Acceptance.refuse else .upTo 3) ≠ .upTo 0
    split
    · exact nofun
    · exact nofun
  have hsame : rig.SameButLoggers rig' := ⟨rfl, rfl, rfl, rfl⟩
  have hrig : rig.Attaches := ⟨.silent, .silent, .silent⟩
  have hrig' : rig'.Attaches := ⟨.recorder _, .console hconsole, .console hconsole⟩
  exact ⟨hsame, hrig, hrig', session_indifferent_to_loggers hsame hrig hrig' commands, by cbv⟩

end TwoWire
