import TwoWire.Proofs.Attains
import TwoWire.Proofs.Sim.Handover
import TwoWire.Proofs.Sleepless

/-!
# Transfers in succession

Transfers to one slave that are delivered one after another deliver their legs in a row
(`Engine.HandsOver.append`), so what a row of requests leaves behind is told from the slave that it
started with. A ready engine serves each of them without sleeping (`Engine.Ready.attains_serve`).

However a transfer ends, the address phases seen before it stay on record
(`Engine.transfers_isPrefix`).
-/

namespace TwoWire

open Event (sleeps)

/-- Events without a sleep give no nanoseconds. -/
theorem Event.sleeps_eq_nil {events : List Event} (h : ∀ part ns, .sleep part ns ∉ events)
    (part : Part) : sleeps part events = [] := by
  refine List.filterMap_eq_nil_iff.mpr fun event hevent => ?_
  cases event with
  | sleep who ns => exact absurd hevent (h who ns)
  | read | write | log | call => rfl

namespace Sim

/-! ## Legs in a row -/

theorem Slave.serve_append (slave : Slave) (legs more : List Leg) :
    slave.serve (legs ++ more) = ((slave.serve legs).1 ++ ((slave.serve legs).2.serve more).1,
      ((slave.serve legs).2.serve more).2) := by
  induction legs generalizing slave with
  | nil => rfl
  | cons leg rest ih =>
    simp only [List.cons_append, serve, ih, List.append_assoc]

theorem Slave.answer_append (slave : Option Slave) (legs more : List Leg) :
    answer slave (legs ++ more)
      = answer slave legs ++ answer (slave.map fun slave => (slave.serve legs).2) more := by
  induction legs generalizing slave with
  | nil => cases slave <;> rfl
  | cons leg rest ih =>
    rw [List.cons_append, answer_cons, ih, answer_cons slave leg rest, List.append_assoc,
      Option.map_map]
    rfl

namespace Controller

variable {c next after : Controller} {addr : UInt8}

theorem Delivers.append {legs more : List Leg} {received received' : List UInt8}
    (h : Delivers addr legs received c next) (h' : Delivers addr more received' next after) :
    Delivers addr (legs ++ more) (received ++ received') c after := by
  refine ⟨by rw [h'.begun, h.begun]; simp, ?_, ?_⟩
  · rw [h'.slaves, h.slaves, modify_modify]
    simp only [Slave.serve_append]
  · rw [h.received, h'.received, h.slaves, Std.ExtTreeMap.getElem?_modify_self,
      Slave.answer_append]

/-! ## Address phases on record -/

theorem transfers_taken {word : TxWord} (h : Taken c word next) :
    c.transfers <+: next.transfers := by
  cases h with
  | openRead _ hended | openWrite _ hended => exact ⟨c.openTransfer, hended.symm⟩
  | byte => exact List.prefix_rfl
  | count => exact ⟨_, (c.ended.toList_push _).symm⟩

/-- A word may end address phases; it takes none back. -/
theorem transfers_accept {word : TxWord} (h : c.accept word = .ok next) :
    c.transfers <+: next.transfers := by
  obtain ⟨taken, htaken, ⟨-, rfl⟩ | ⟨-, rfl⟩⟩ := accept_cases h
  · exact transfers_taken htaken
  · obtain ⟨ended, hstop, hended⟩ := endTransaction_eq taken
    rw [hstop]
    exact (transfers_taken htaken).trans ⟨taken.openTransfer, hended.symm⟩

/-- No access takes an address phase back. -/
theorem transfers_of_replays {trace : List Event} (h : RegisterBlock.Replays c trace after) :
    c.transfers <+: after.transfers := by
  refine h.invariant (p := fun block => c.transfers <+: block.transfers) ?_ ?_ List.prefix_rfl
  · rintro width offset block value next hkept hok
    rcases read_cases hok with rfl | ⟨-, rx, access, rfl⟩ | rfl
    · show c.transfers <+: block.polled.transfers
      rwa [transfers_polled]
    · exact hkept
    · exact hkept
  · rintro width offset value block next hkept hok
    rcases write_cases hok with ⟨word, -, haccept⟩ | ⟨-, _, _, _, access, rfl⟩ |
      ⟨-, outputs, access, rfl⟩
    · exact hkept.trans (transfers_accept haccept)
    · exact hkept
    · exact hkept

end Controller

end Sim

namespace Engine

open Log (Logger)
open Sim (Controller)

variable {κ : Type}

theorem HandsOver.refl {engine : Engine Controller κ} (addr : UInt8) (h : engine.Ready) :
    HandsOver addr [] [] engine engine :=
  ⟨.nil engine.registers, h, fun _ _ => Nat.le_refl _⟩

theorem HandsOver.append {addr : UInt8} {legs more : List Leg} {received received' : List UInt8}
    {before mid after : Engine Controller κ} (h : HandsOver addr legs received before mid)
    (h' : HandsOver addr more received' mid after) :
    HandsOver addr (legs ++ more) (received ++ received') before after :=
  ⟨h.delivers.append h'.delivers, h'.ready,
    fun addr legs => Nat.le_trans (h'.limit addr legs) (h.limit addr legs)⟩

variable [Logger κ] {engine : Engine Controller κ} {request : Request}

theorem transfers_isPrefix (request : Request) (engine : Engine Controller κ) (allowance : Nat) :
    engine.registers.transfers
      <+: (serve request engine allowance).state.registers.transfers :=
  Controller.transfers_of_replays (serve_replays request engine allowance)

/-- **A ready engine serves what it accepts within the limit, without sleeping.** -/
theorem Ready.attains_serve (hready : engine.Ready) (hvalid : request.Valid)
    (hlogger : ∀ level pieces (logger : κ), ∃ next, Logger.record level pieces logger = .ok next) :
    (serve request).Attains engine (engine.registers.transferLimit request.addr request.legs)
      fun ev reply after => (reply.result = .ok ()
        ∧ HandsOver request.addr request.legs reply.received engine after)
        ∧ ∀ part, sleeps part ev = [] := by
  have hplan : engine.plan request = .ok (Leg.layout request.addr request.legs) :=
    (plan_eq_ok_iff engine).mpr ⟨hready.initialized, hvalid.addr, hvalid.full, hvalid.fits, rfl⟩
  have hquiet : (serve request).Ensures engine fun ev _ _ => ∀ part, sleeps part ev = [] := by
    intro n reply _
    rw [serve_of_plan hplan]
    have hsleepless : (performAll (Leg.layout request.addr request.legs) :
        Proc (Engine Controller κ) _).Sleepless Endless fun reply => reply.result = .ok () :=
      sleepless_performAll fun error => Leg.refuse_not_mem_layout error request.addr request.legs
    obtain ⟨-, hshown, -⟩ := hsleepless engine n hready.wait
    exact Event.sleeps_eq_nil hshown
  exact (hready.spends_serve hvalid hlogger).attains hquiet

end Engine

end TwoWire
