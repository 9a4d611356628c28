import TwoWire.Proofs.EngineTrace

/-!
# Replaying a trace

A trace says what the registers answered. `RegisterBlock.Replays` puts the accesses of a trace to a
block in order: the block has to give the same answers, and what is left of it is then determined.
The events of every request replay on the registers that the engine started with, however the
request ends (`Engine.serve_replays`), so what a trace looks like says something about the registers
after it.
-/

namespace TwoWire

open Event

namespace RegisterBlock

variable {β : Type} [RegisterBlock β]

/-- The block answers the accesses among some events as they show, and `after` is left of it. -/
def Replays : β → List Event → β → Prop
  | block, [], after => after = block
  | block, .read width offset value :: rest, after => ∃ next,
    RegisterBlock.read width offset block = .ok (value, next) ∧ Replays next rest after
  | block, .write width offset value :: rest, after => ∃ next,
    RegisterBlock.write width offset value block = .ok next ∧ Replays next rest after
  | block, _ :: rest, after => Replays block rest after

theorem replays_append {before after : β} {a b : List Event} :
    Replays before (a ++ b) after ↔ ∃ mid, Replays before a mid ∧ Replays mid b after := by
  induction a generalizing before with
  | nil =>
    constructor
    · intro h
      exact ⟨before, rfl, h⟩
    · rintro ⟨_, rfl, h⟩
      exact h
  | cons event rest ih =>
    cases event with
    | read width offset value =>
      constructor
      · rintro ⟨next, hread, hrest⟩
        obtain ⟨mid, hmid, h⟩ := ih.mp hrest
        exact ⟨mid, ⟨next, hread, hmid⟩, h⟩
      · rintro ⟨mid, ⟨next, hread, hmid⟩, h⟩
        exact ⟨next, hread, ih.mpr ⟨mid, hmid, h⟩⟩
    | write width offset value =>
      constructor
      · rintro ⟨next, hwrite, hrest⟩
        obtain ⟨mid, hmid, h⟩ := ih.mp hrest
        exact ⟨mid, ⟨next, hwrite, hmid⟩, h⟩
      · rintro ⟨mid, ⟨next, hwrite, hmid⟩, h⟩
        exact ⟨next, hwrite, ih.mpr ⟨mid, hmid, h⟩⟩
    | sleep | log | call => exact ih

/-- Only the accesses count. -/
theorem replays_accesses {before after : β} {events : List Event} :
    Replays before (accesses events) after ↔ Replays before events after := by
  induction events generalizing before with
  | nil => exact Iff.rfl
  | cons event rest ih =>
    cases event with
    | read | write => exact exists_congr fun next => and_congr_right fun _ => ih
    | sleep | log | call => exact ih

theorem chained_replays : Proc.Chained (Replays : β → List Event → β → Prop) :=
  ⟨fun _ => rfl, fun h h' => replays_append.mpr ⟨_, h, h'⟩⟩

/-- What holds before and is kept by every access holds after a trace. -/
theorem Replays.invariant {p : β → Prop}
    (hread : ∀ {width offset block value next}, p block →
      RegisterBlock.read width offset block = .ok (value, next) → p next)
    (hwrite : ∀ {width offset value block next}, p block →
      RegisterBlock.write width offset value block = .ok next → p next)
    {before after : β} {events : List Event} (h : Replays before events after)
    (hbefore : p before) : p after := by
  induction events generalizing before with
  | nil => exact h ▸ hbefore
  | cons event rest ih =>
    cases event with
    | read width offset value =>
      obtain ⟨next, haccess, hrest⟩ := h
      exact ih hrest (hread hbefore haccess)
    | write width offset value =>
      obtain ⟨next, haccess, hrest⟩ := h
      exact ih hrest (hwrite hbefore haccess)
    | sleep | log | call => exact ih h hbefore

theorem always_load (width : Width) (offset : Nat) :
    Proc.Always Replays (load width offset : Proc β width.Value) :=
  always_load_of_read (fun _ => rfl) fun hread => ⟨_, hread, rfl⟩

theorem always_store (width : Width) (offset : Nat) (value : width.Value) :
    Proc.Always Replays (store width offset value : Proc β Unit) :=
  always_store_of_write (fun _ => rfl) fun hwrite => ⟨_, hwrite, rfl⟩

end RegisterBlock

namespace Engine

open Log (Logger)
open RegisterBlock (Replays)

variable {β κ α : Type} [RegisterBlock β]

theorem always_onRegisters {p : Proc β α} (h : Proc.Always Replays p) :
    Proc.Always (fun (engine : Engine β κ) events after =>
      Replays engine.registers events after.registers) (onRegisters p) := by
  intro engine n
  exact h engine.registers n

variable [Logger κ]

/-- Everything that serving a request is made of replays on the engine's registers. -/
theorem leaves_replays :
    Leaves fun (engine : Engine β κ) events after =>
      Replays engine.registers events after.registers := by
  have hchained : Proc.Chained fun (engine : Engine β κ) events (after : Engine β κ) =>
      Replays engine.registers events after.registers :=
    ⟨fun _ => rfl, fun h h' => RegisterBlock.chained_replays.trans h h'⟩
  refine ⟨⟨hchained, ?_, ?_, ?_, ?_⟩, ?_⟩
  · exact (always_onRegisters (RegisterBlock.always_load .byte Offset.status)).bind hchained
      fun _ => Proc.always_pure hchained _
  · exact always_onRegisters (RegisterBlock.always_load .byte Offset.rxFifo)
  · intro level pieces engine n
    show Replays engine.registers (Log.note .engine level pieces engine.logger n).events
      engine.registers
    unfold Log.note
    split <;> rfl
  · intro us engine n
    show Replays engine.registers ((sleepParts us).map (.sleep .engine)) engine.registers
    rw [← RegisterBlock.replays_accesses, accesses_sleeps]
    rfl
  · exact fun word => always_onRegisters (RegisterBlock.always_store .half Offset.txFifo word.bits)

/-- **The events of a request replay on the engine's registers, however it ends.** -/
theorem serve_replays (request : Request) (engine : Engine β κ) (allowance : Nat) :
    Replays engine.registers (serve request engine allowance).events
      (serve request engine allowance).state.registers :=
  always_serve leaves_replays request engine allowance

end Engine

end TwoWire
