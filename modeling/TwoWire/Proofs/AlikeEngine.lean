import TwoWire.Engine
import TwoWire.Proofs.Alike
import TwoWire.Proofs.EngineTrace

/-!
# Engines that look alike

Two engines with the same settings look alike when they are brought up and serve requests, if their
registers answer alike (`RegisterBlock.AnswersAlike`) and their loggers take every record alike
(`Log.TakesAlike`). Neither the registers nor the loggers need to be of one type.

None of that has to do with the output lines. How these answer is a condition of its own
(`RegisterBlock.OutputsAlike`), which only driving them calls for.
-/

namespace TwoWire

open Proc (Alike Both)

variable {β β' κ κ' : Type}

/-- Register blocks that answer alike, the output lines aside. -/
structure RegisterBlock.AnswersAlike [RegisterBlock β] [RegisterBlock β'] (R : β → β' → Prop) :
    Prop where
  load : ∀ width offset, (width, offset) ≠ (.word, Offset.outputs) →
    Alike R (RegisterBlock.load width offset : Proc β width.Value) (RegisterBlock.load width offset)
  store : ∀ width offset value, (width, offset) ≠ (.word, Offset.outputs) →
    Alike R (RegisterBlock.store width offset value : Proc β Unit)
      (RegisterBlock.store width offset value)

/-- Register blocks of which the output lines answer alike. -/
structure RegisterBlock.OutputsAlike [RegisterBlock β] [RegisterBlock β'] (R : β → β' → Prop) :
    Prop where
  load : Alike R (RegisterBlock.load .word Offset.outputs : Proc β UInt32)
    (RegisterBlock.load .word Offset.outputs)
  store : ∀ value, Alike R (RegisterBlock.store .word Offset.outputs value : Proc β Unit)
    (RegisterBlock.store .word Offset.outputs value)

/-- Loggers that take every record alike. -/
def Log.TakesAlike [Log.Logger κ] [Log.Logger κ'] (L : κ → κ' → Prop) : Prop :=
  ∀ part level pieces, Alike L (Log.note part level pieces) (Log.note part level pieces)

namespace Engine

open Log (Logger)

/-- Engines that differ only in what their registers and their loggers are. -/
structure Matches (R : β → β' → Prop) (L : κ → κ' → Prop) (engine : Engine β κ)
    (engine' : Engine β' κ') : Prop where
  config : engine'.config = engine.config
  initialized : engine'.initialized = engine.initialized
  registers : R engine.registers engine'.registers
  logger : L engine.logger engine'.logger

variable {R : β → β' → Prop} {L : κ → κ' → Prop} {α : Type}

theorem alike_onRegisters {p : Proc β α} {p' : Proc β' α} (h : Alike R p p') :
    Alike (Matches R L) (onRegisters p) (onRegisters p') := by
  refine h.zoom (fun _ _ hengine => hengine.registers) ?_
  intro engine engine' registers registers' hengine hregisters
  exact ⟨hengine.config, hengine.initialized, hregisters, hengine.logger⟩

section Registers

variable [RegisterBlock β] [RegisterBlock β'] (hR : RegisterBlock.AnswersAlike R)
include hR

theorem alike_status :
    Alike (Matches R L) (status : Proc (Engine β κ) Status) (status : Proc (Engine β' κ') _) := by
  have hload := alike_onRegisters (L := L) (hR.load .byte Offset.status (by decide))
  exact hload.bind fun _ => Proc.alike_pure _

theorem alike_popByte :
    Alike (Matches R L) (popByte : Proc (Engine β κ) UInt8) (popByte : Proc (Engine β' κ') _) :=
  alike_onRegisters (hR.load .byte Offset.rxFifo (by decide))

theorem alike_pushWord (word : TxWord) : Alike (Matches R L)
    (pushWord word : Proc (Engine β κ) Unit) (pushWord word : Proc (Engine β' κ') Unit) :=
  alike_onRegisters (hR.store .half Offset.txFifo word.bits (by decide))

omit hR in
theorem alike_setOutputs (houtputs : RegisterBlock.OutputsAlike R) (value : UInt32) :
    Alike (Matches R L)
      (setOutputs value : Proc (Engine β κ) Unit) (setOutputs value : Proc (Engine β' κ') Unit) :=
  alike_onRegisters (houtputs.store value)

theorem alike_flush (limit : Nat) : Alike (Matches R L)
    (flush limit : Proc (Engine β κ) _) (flush limit : Proc (Engine β' κ') _) := by
  induction limit with
  | zero => exact Proc.alike_pure _
  | succ limit ih =>
    refine (alike_status hR).bind fun s => ?_
    show Alike _ (if s.rxEmpty = true then _ else _) (if s.rxEmpty = true then _ else _)
    split
    · exact Proc.alike_pure _
    · refine (alike_popByte hR).bind fun _ => ?_
      exact ih.bind fun _ => Proc.alike_pure _

/-- The bytes taken out are counted alike. -/
theorem alike_flushCounting : Alike (Both (Matches R L) Eq)
    (flushCounting : Proc (Engine β κ × Nat) _) (flushCounting : Proc (Engine β' κ' × Nat) _) := by
  refine (alike_flush hR rxFifoDepth).onFst.bind fun result => ?_
  refine (Proc.alike_modify ?_).bind fun _ => Proc.alike_pure _
  rintro ⟨engine, total⟩ ⟨engine', _⟩ ⟨hengine, rfl⟩
  exact ⟨hengine, rfl⟩

end Registers

variable [Logger κ] [Logger κ']

theorem alike_log (hL : Log.TakesAlike L) (level : Log.Level) (pieces : List String) :
    Alike (Matches R L) (log level pieces : Proc (Engine β κ) Unit)
      (log level pieces : Proc (Engine β' κ') Unit) := by
  refine (hL .engine level pieces).zoom (fun _ _ hengine => hengine.logger) ?_
  intro engine engine' logger logger' hengine hlogger
  exact ⟨hengine.config, hengine.initialized, hengine.registers, hlogger⟩

variable [RegisterBlock β] [RegisterBlock β'] (hR : RegisterBlock.AnswersAlike R)
  (hL : Log.TakesAlike L)
include hR hL

/-! ## Waits -/

theorem alike_timedOut (condition : Condition) : Alike (Matches R L)
    (timedOut condition : Proc (Engine β κ) _) (timedOut condition : Proc (Engine β' κ') _) := by
  refine (alike_status hR).bind fun status => ?_
  exact (alike_log hL _ _).bind fun _ => Proc.alike_pure _

theorem alike_await (flag : Flag) : Alike (Matches R L)
    (await flag : Proc (Engine β κ) _) (await flag : Proc (Engine β' κ') _) := by
  refine Proc.alike_get_bind fun engine engine' hengine => ?_
  rw [hengine.config]
  have hready : Alike (Matches R L)
      (do return .ok (flag.holds (← status)) : Proc (Engine β κ) (Except Empty Bool))
      (do return .ok (flag.holds (← status)) : Proc (Engine β' κ') (Except Empty Bool)) :=
    (alike_status hR).bind fun _ => Proc.alike_pure _
  refine (hready.pollUntil .engine engine.config.wait).bind fun answer => ?_
  match answer with
  | .ok true => exact Proc.alike_pure _
  | .ok false => exact alike_timedOut hR hL flag.condition

theorem alike_endDrain (drained : Except Empty Bool) (count : Nat) : Alike (Matches R L)
    (endDrain drained count : Proc (Engine β κ) _)
    (endDrain drained count : Proc (Engine β' κ') _) := by
  -- Whatever comes next, the record of discarded bytes comes before it or not on both sides.
  have hnoted : ∀ (rest : Proc (Engine β κ) (Except TransferError Unit))
      (rest' : Proc (Engine β' κ') (Except TransferError Unit)), Alike (Matches R L) rest rest' →
      Alike (Matches R L)
        (if 0 < count then log .debug ["axi-iic: discarded ", toString (min count maxDiscarded),
          " stale rx bytes"] >>= fun _ => rest else rest)
        (if 0 < count then log .debug ["axi-iic: discarded ", toString (min count maxDiscarded),
          " stale rx bytes"] >>= fun _ => rest' else rest') := by
    intro rest rest' hrest
    split
    · exact (alike_log hL _ _).bind fun _ => hrest
    · exact hrest
  rcases drained with never | emptied
  · exact never.elim
  · cases emptied with
    | true => exact hnoted _ _ (Proc.alike_pure _)
    | false => exact hnoted _ _ (alike_timedOut hR hL .rxDrained)

theorem alike_drain : Alike (Matches R L)
    (drain : Proc (Engine β κ) _) (drain : Proc (Engine β' κ') _) := by
  rw [drain_eq, drain_eq]
  refine Proc.alike_get_bind fun engine engine' hengine => ?_
  rw [hengine.config]
  have hpolled := (alike_flushCounting (L := L) hR).pollUntil .engine engine.config.wait
  refine (Alike.withLocal hpolled).bind fun answer => ?_
  exact alike_endDrain hR hL answer.1 answer.2

/-! ## Requests -/

theorem alike_perform (move : Move) : Alike (Matches R L)
    (perform move : Proc (Engine β κ) _) (perform move : Proc (Engine β' κ') _) := by
  cases move with
  | await flag => exact (alike_await hR hL flag).bind fun _ => Proc.alike_pure _
  | drain => exact (alike_drain hR hL).bind fun _ => Proc.alike_pure _
  | push word => exact (alike_pushWord hR word).bind fun _ => Proc.alike_pure _
  | pop => exact (alike_popByte hR).bind fun _ => Proc.alike_pure _
  | refuse error => exact Proc.alike_pure _

theorem alike_performAll (moves : List Move) : Alike (Matches R L)
    (performAll moves : Proc (Engine β κ) _) (performAll moves : Proc (Engine β' κ') _) := by
  induction moves with
  | nil => exact Proc.alike_pure _
  | cons move rest ih =>
    refine (alike_perform hR hL move).bind fun first => ?_
    obtain ⟨result, received⟩ := first
    match result with
    | .error error => exact Proc.alike_pure _
    | .ok () => exact ih.map _

/-- **Requests look alike**, whether they are carried out, refused or given up. -/
theorem alike_serve (request : Request) : Alike (Matches R L)
    (serve request : Proc (Engine β κ) _) (serve request : Proc (Engine β' κ') _) := by
  refine Proc.alike_get_bind fun engine engine' hengine => ?_
  have hplan : engine'.plan request = engine.plan request := by
    rw [plan, plan, checkTarget, checkTarget, hengine.initialized]
  rw [hplan]
  cases engine.plan request with
  | error error => exact Proc.alike_pure _
  | ok moves => exact alike_performAll hR hL moves

theorem alike_bringUp : Alike (Matches R L)
    (bringUp : Proc (Engine β κ) Unit) (bringUp : Proc (Engine β' κ') Unit) := by
  have hstore : ∀ offset value, Alike (Matches R L)
      (onRegisters (RegisterBlock.store .byte offset value) : Proc (Engine β κ) Unit)
      (onRegisters (RegisterBlock.store .byte offset value) : Proc (Engine β' κ') Unit) :=
    fun offset value => alike_onRegisters (hR.store .byte offset value nofun)
  have hmark : Alike (Matches R L)
      (Proc.modify fun engine : Engine β κ => { engine with initialized := true })
      (Proc.modify fun engine : Engine β' κ' => { engine with initialized := true }) :=
    Proc.alike_modify fun _ _ hengine => ⟨hengine.config, rfl, hengine.registers, hengine.logger⟩
  refine Proc.alike_get_bind fun engine engine' hengine => ?_
  rw [hengine.config]
  refine (hstore Offset.rxThreshold engine.config.rxThreshold).bind fun _ => ?_
  refine (hstore Offset.control Control.txReset).bind fun _ => ?_
  refine (hstore Offset.control Control.enable).bind fun _ => ?_
  exact hmark.bind fun _ => alike_log hL _ _

end Engine

end TwoWire
