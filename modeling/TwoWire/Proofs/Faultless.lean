import TwoWire.Proofs.Budget
import TwoWire.Proofs.Upholds

/-!
# Whom the engine's faults blame

An engine asks few things of its registers: readings of the status and of the receive FIFO, writes
of the control register, of the receive threshold and of the output lines, and the words of whole
legs. `Engine.Obliging` says that registers do all of these in any state. Then only the engine's
logger can fault a request, a bring-up or a change of the output lines, whatever state they find and
however they end. Words are taken leg by leg and not one by one: a word alone may have to be
refused.
-/

namespace TwoWire

open Event

namespace RegisterBlock

variable {β : Type} [RegisterBlock β] {flaw : Fault → Prop} {width : Width} {offset : Nat}

theorem blames_load
    (h : ∀ block : β, ∃ result, RegisterBlock.read width offset block = .ok result) :
    (load width offset : Proc β width.Value).Blames flaw := by
  intro block n cause hfault
  cases n with
  | zero => cases hfault
  | succ n =>
    obtain ⟨result, hread⟩ := h block
    simp only [load, hread] at hfault
    cases hfault

theorem blames_store {value : width.Value}
    (h : ∀ block : β, ∃ after, RegisterBlock.write width offset value block = .ok after) :
    (store width offset value : Proc β Unit).Blames flaw := by
  intro block n cause hfault
  cases n with
  | zero => cases hfault
  | succ n =>
    obtain ⟨after, hwrite⟩ := h block
    simp only [store, hwrite] at hfault
    cases hfault

end RegisterBlock

namespace Engine

open Log (Logger)

variable {β κ : Type} {flaw : Fault → Prop}

/-- Registers that do, in any state, all that an engine asks of them. -/
structure Obliging (β : Type) [RegisterBlock β] : Prop where
  status : ∀ block : β, ∃ result, RegisterBlock.read .byte Offset.status block = .ok result
  rxFifo : ∀ block : β, ∃ result, RegisterBlock.read .byte Offset.rxFifo block = .ok result
  control : ∀ value, ∀ block : β, ∃ after,
    RegisterBlock.write .byte Offset.control value block = .ok after
  rxThreshold : ∀ value, ∀ block : β, ∃ after,
    RegisterBlock.write .byte Offset.rxThreshold value block = .ok after
  outputs : ∀ value, ∀ block : β, ∃ after,
    RegisterBlock.write .word Offset.outputs value block = .ok after
  /-- The words of a leg are taken one after another. -/
  words : ∀ (leg : Leg) addr last (block : β), ∃ after, (leg.words addr last).foldlM
    (fun block word => RegisterBlock.write .half Offset.txFifo word.bits block) block = .ok after

theorem blames_log [Logger κ] (hlogger : ∀ cause, Log.Stalls κ cause → flaw cause)
    (level : Log.Level) (pieces : List String) :
    (log level pieces : Proc (Engine β κ) Unit).Blames flaw :=
  (Log.upholds_note hlogger .engine level pieces).blames.zoom

variable [RegisterBlock β] (hregisters : Obliging β)
include hregisters

theorem blames_status : (status : Proc (Engine β κ) Status).Blames flaw := by
  have hload : (onRegisters (RegisterBlock.load .byte Offset.status) :
      Proc (Engine β κ) UInt8).Blames flaw := (RegisterBlock.blames_load hregisters.status).zoom
  exact hload.bind fun _ => Proc.blames_pure _

theorem blames_popByte : (popByte : Proc (Engine β κ) UInt8).Blames flaw :=
  (RegisterBlock.blames_load hregisters.rxFifo).zoom

theorem blames_setOutputs (value : UInt32) :
    (setOutputs value : Proc (Engine β κ) Unit).Blames flaw :=
  (RegisterBlock.blames_store (hregisters.outputs value)).zoom

theorem blames_flush (limit : Nat) : (flush limit : Proc (Engine β κ) _).Blames flaw := by
  induction limit with
  | zero => exact Proc.blames_pure _
  | succ limit ih =>
    refine (blames_status hregisters).bind fun s => ?_
    show Proc.Blames flaw (if s.rxEmpty = true then _ else _)
    split
    · exact Proc.blames_pure _
    · refine (blames_popByte hregisters).bind fun _ => ?_
      exact ih.bind fun _ => Proc.blames_pure _

theorem blames_flushCounting : (flushCounting : Proc (Engine β κ × Nat) _).Blames flaw := by
  refine Proc.Blames.bind (blames_flush hregisters rxFifoDepth).zoom fun result => ?_
  exact (Proc.blames_modify _).bind fun _ => Proc.blames_pure _

variable [Logger κ]

/-- The words of a leg are taken in any state, so that none of them faults. -/
theorem blames_pushAll (leg : Leg) (addr : UInt8) (last : Bool) :
    (performAll (Move.pushAll (leg.words addr last)) : Proc (Engine β κ) _).Blames flaw := by
  intro engine n cause hfault
  have htaken : ¬False → ∃ after, (leg.words addr last).foldlM (fun block word =>
      RegisterBlock.write .half Offset.txFifo word.bits block) engine.registers = .ok after :=
    fun _ => hregisters.words leg addr last engine.registers
  exact absurd hfault ((spends_pushAll engine htaken).ne_fault id n cause)

variable (hlogger : ∀ cause, Log.Stalls κ cause → flaw cause)
include hlogger

theorem blames_timedOut (condition : Condition) :
    (timedOut condition : Proc (Engine β κ) _).Blames flaw :=
  (blames_status hregisters).bind fun _ =>
    (blames_log hlogger _ _).bind fun _ => Proc.blames_pure _

theorem blames_await (flag : Flag) : (await flag : Proc (Engine β κ) _).Blames flaw := by
  refine Proc.blames_get.bind fun engine => ?_
  have hready : (do return .ok (flag.holds (← status)) :
      Proc (Engine β κ) (Except Empty Bool)).Blames flaw :=
    (blames_status hregisters).bind fun _ => Proc.blames_pure _
  refine (Blames.pollUntil hready .engine engine.config.wait).bind fun answer => ?_
  rcases answer with never | met
  · exact never.elim
  · cases met with
    | true => exact Proc.blames_pure _
    | false => exact blames_timedOut hregisters hlogger flag.condition

theorem blames_endDrain (drained : Except Empty Bool) (count : Nat) :
    (endDrain drained count : Proc (Engine β κ) _).Blames flaw := by
  have hnoted : ∀ rest : Proc (Engine β κ) (Except TransferError Unit), rest.Blames flaw →
      (if 0 < count then log .debug ["axi-iic: discarded ", toString (min count maxDiscarded),
        " stale rx bytes"] >>= fun _ => rest else rest).Blames flaw := by
    intro rest hrest
    split
    · exact (blames_log hlogger _ _).bind fun _ => hrest
    · exact hrest
  rcases drained with never | emptied
  · exact never.elim
  · cases emptied with
    | true => exact hnoted _ (Proc.blames_pure _)
    | false => exact hnoted _ (blames_timedOut hregisters hlogger .rxDrained)

theorem blames_drain : (drain : Proc (Engine β κ) _).Blames flaw := by
  rw [drain_eq]
  refine Proc.blames_get.bind fun engine => ?_
  have hpolled : (pollUntil .engine engine.config.wait flushCounting :
      Proc (Engine β κ × Nat) _).Blames flaw :=
    Blames.pollUntil (blames_flushCounting hregisters) .engine engine.config.wait
  exact hpolled.withLocal.bind fun answer =>
    blames_endDrain hregisters hlogger answer.1 answer.2

/-! ## Moves -/

omit hregisters hlogger in
/-- Moves joined fault where one of the two parts does. -/
theorem blames_performAll_append {xs ys : List Move}
    (hxs : (performAll xs : Proc (Engine β κ) _).Blames flaw)
    (hys : (performAll ys : Proc (Engine β κ) _).Blames flaw) :
    (performAll (xs ++ ys) : Proc (Engine β κ) _).Blames flaw := by
  rw [performAll_append]
  refine hxs.bind fun first => ?_
  rcases first with ⟨_ | _, received⟩
  · exact Proc.blames_pure _
  · exact hys.map

theorem blames_performAll_of_ne_push {moves : List Move} (hmoves : ∀ word, .push word ∉ moves) :
    (performAll moves : Proc (Engine β κ) _).Blames flaw := by
  have hperform : ∀ move ∈ moves, (perform move : Proc (Engine β κ) _).Blames flaw := by
    intro move hmem
    cases move with
    | await flag => exact (blames_await hregisters hlogger flag).bind fun _ => Proc.blames_pure _
    | drain => exact (blames_drain hregisters hlogger).bind fun _ => Proc.blames_pure _
    | push word => exact absurd hmem (hmoves word)
    | pop => exact (blames_popByte hregisters).bind fun _ => Proc.blames_pure _
    | refuse error => exact Proc.blames_pure _
  clear hmoves
  induction moves with
  | nil => exact Proc.blames_pure _
  | cons move rest ih =>
    obtain ⟨hmove, hrest⟩ := List.forall_mem_cons.mp hperform
    refine hmove.bind fun first => ?_
    rcases first with ⟨_ | _, received⟩
    · exact Proc.blames_pure _
    · exact (ih hrest).map

theorem blames_frame (addr : UInt8) (legs : List Leg) :
    (performAll (Leg.frame addr legs) : Proc (Engine β κ) _).Blames flaw := by
  induction legs with
  | nil => exact Proc.blames_pure _
  | cons leg rest ih =>
    have hcollect : ∀ word, .push word ∉ leg.collect := leg.push_not_mem_collect
    refine blames_performAll_append (blames_performAll_append ?_ ?_) ih
    · exact blames_pushAll hregisters leg addr rest.isEmpty
    · exact blames_performAll_of_ne_push hregisters hlogger hcollect

/-- **Only the logger faults a request**, over registers that do what they are asked. -/
theorem blames_serve (request : Request) :
    (serve request : Proc (Engine β κ) _).Blames flaw := by
  refine Proc.blames_get.bind fun engine => ?_
  cases hplan : engine.plan request with
  | error error => exact Proc.blames_pure _
  | ok moves =>
    obtain ⟨-, -, -, -, rfl⟩ := (plan_eq_ok_iff engine).mp hplan
    show (performAll (Leg.layout request.addr request.legs)).Blames flaw
    unfold Leg.layout
    split
    · exact Proc.blames_pure _
    · refine blames_performAll_append (blames_performAll_append ?_ ?_) ?_
      · exact blames_performAll_of_ne_push hregisters hlogger Move.push_not_mem_opening
      · exact blames_frame hregisters hlogger request.addr request.legs
      · exact blames_performAll_of_ne_push hregisters hlogger (Move.push_not_mem_closing _)

theorem blames_bringUp : (bringUp : Proc (Engine β κ) Unit).Blames flaw := by
  refine Proc.blames_get.bind fun engine => ?_
  refine Proc.Blames.bind (RegisterBlock.blames_store (hregisters.rxThreshold _)).zoom fun _ => ?_
  refine Proc.Blames.bind (RegisterBlock.blames_store (hregisters.control _)).zoom fun _ => ?_
  refine Proc.Blames.bind (RegisterBlock.blames_store (hregisters.control _)).zoom fun _ => ?_
  exact (Proc.blames_modify _).bind fun _ => blames_log hlogger _ _

end Engine

end TwoWire
