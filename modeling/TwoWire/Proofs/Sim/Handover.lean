import TwoWire.Proofs.Sim.Termination

/-!
# What a transfer hands over to the next

An engine that waits without bound is ready as long as nothing holds the bus of its controller. A
request that a ready engine accepts is served within the limit of its transfer. It has then been
delivered, the engine is ready again, and no later transfer takes longer than it would have taken
before (`Engine.HandsOver`). So requests may follow one another under limits that are all known
before the first of them is served.
-/

namespace TwoWire

open Event
open Proc (Always Chained)

namespace Sim.Controller

open RegisterBlock (Replays)

variable {c next after : Controller}

/-! ## Latencies -/

/-- Both latencies are the same. -/
structure SameLatencies (c next : Controller) : Prop where
  tx : next.txLatency = c.txLatency
  stop : next.stopLatency = c.stopLatency

theorem sameLatencies_of_timing {t : Timing} (h : next.timing = t)
    (htx : t.txLatency = c.txLatency) (hstop : t.stopLatency = c.stopLatency) :
    SameLatencies c next :=
  ⟨(congrArg Timing.txLatency h).trans htx, (congrArg Timing.stopLatency h).trans hstop⟩

theorem sameLatencies_read {width : Width} {offset : Nat} {value : width.Value}
    (hok : c.read width offset = .ok (value, next)) : SameLatencies c next := by
  rcases read_cases hok with rfl | ⟨-, rx, access, rfl⟩ | rfl
  · exact sameLatencies_of_timing (elapsed_polled c).timing rfl rfl
  · exact ⟨rfl, rfl⟩
  · exact ⟨rfl, rfl⟩

theorem sameLatencies_write {width : Width} {offset : Nat} {value : width.Value}
    (hok : c.write width offset value = .ok next) : SameLatencies c next := by
  rcases write_cases hok with ⟨word, -, haccept⟩ | ⟨-, _, _, _, access, rfl⟩ |
    ⟨-, outputs, access, rfl⟩
  · exact sameLatencies_of_timing (timing_accept haccept) rfl rfl
  · exact ⟨rfl, rfl⟩
  · exact ⟨rfl, rfl⟩

/-- No access changes a latency. -/
theorem sameLatencies_of_replays {trace : List Event} (h : Replays c trace after) :
    SameLatencies c after := by
  have hkeep : ∀ {block last : Controller}, SameLatencies c block → SameLatencies block last →
      SameLatencies c last :=
    fun h h' => ⟨h'.tx.trans h.tx, h'.stop.trans h.stop⟩
  exact h.invariant (p := SameLatencies c) (fun h hok => hkeep h (sameLatencies_read hok))
    (fun h hok => hkeep h (sameLatencies_write hok)) ⟨rfl, rfl⟩

/-- Slaves at other addresses have nothing to do with what is delivered. -/
theorem Delivers.getElem?_of_ne {addr other : UInt8} {legs : List Leg} {received : List UInt8}
    (h : Delivers addr legs received c after) (hne : other ≠ addr) :
    after.slaves[other]? = c.slaves[other]? := by
  rw [h.slaves, getElem?_modify_of_ne hne]

/-- From rest, a transfer takes no longer than it does from any other state. -/
theorem AtRest.transferLimit_le (hrest : after.AtRest) (hsame : SameLatencies c after)
    (addr : UInt8) (legs : List Leg) :
    after.transferLimit addr legs ≤ c.transferLimit addr legs := by
  have hempty : after.rx.size = 0 := by
    rw [← Fifo.length_toList, hrest.rx]
    rfl
  unfold transferLimit
  rw [hrest.txPending, hrest.busyHold, hempty, hsame.tx, hsame.stop]
  omega

end Sim.Controller

/-- A request that every engine accepts once it has been brought up. -/
structure Request.Valid (request : Request) : Prop where
  addr : request.addr ≤ maxAddress
  full : request.operations.any Operation.isEmpty = false
  fits : request.legs.all Leg.fits = true

namespace Engine

open Log (Logger)
open Sim (Controller)
open Sim.Controller (sameLatencies_of_replays)

/-! ## Ready engines -/

variable {κ : Type}

/-- An engine that serves what it accepts: it waits without bound, and nothing holds the bus. -/
structure Ready (engine : Engine Controller κ) : Prop where
  initialized : engine.initialized = true
  wait : engine.config.wait = .infinite
  framed : engine.registers.Framed
  stuckBusy : engine.registers.stuckBusy = false
  inTransaction : engine.registers.inTransaction = false

/-- The legs have been delivered, and what follows finds the engine ready and takes no longer. -/
structure HandsOver (addr : UInt8) (legs : List Leg) (received : List UInt8)
    (before after : Engine Controller κ) : Prop where
  delivers : Controller.Delivers addr legs received before.registers after.registers
  ready : after.Ready
  limit : ∀ addr legs,
    after.registers.transferLimit addr legs ≤ before.registers.transferLimit addr legs

/-- The most accesses of some requests that a ready engine serves one after another. -/
def sessionLimit (engine : Engine Controller κ) (requests : List Request) : Nat :=
  (requests.map fun request => engine.registers.transferLimit request.addr request.legs).sum

theorem sessionLimit_append (engine : Engine Controller κ) (requests more : List Request) :
    engine.sessionLimit (requests ++ more)
      = engine.sessionLimit requests + engine.sessionLimit more := by
  rw [sessionLimit, List.map_append, List.sum_append]
  rfl

theorem HandsOver.sessionLimit_le {addr : UInt8} {legs : List Leg} {received : List UInt8}
    {before after : Engine Controller κ} (h : HandsOver addr legs received before after)
    (requests : List Request) : after.sessionLimit requests ≤ before.sessionLimit requests :=
  List.sum_le_sum fun request _ => h.limit request.addr request.legs

variable [Logger κ] {engine : Engine Controller κ} {request : Request}

/-- A request that succeeds leaves a ready engine ready. -/
theorem Ready.handsOver_of_ok (hready : engine.Ready) (hne : request.operations ≠ [])
    {allowance : Nat} {received : List UInt8}
    (hok : (serve request engine allowance).outcome = .ok ⟨.ok (), received⟩) :
    HandsOver request.addr request.legs received engine (serve request engine allowance).state := by
  obtain ⟨haddr, -, hfits, h⟩ := handshake_of_serve hne hok
  have hr := serve_replays request engine allowance
  have hr' := RegisterBlock.replays_accesses.mpr hr
  obtain ⟨hdelivers, -, -, hrest⟩ :=
    Controller.delivers_handshake haddr hfits hready.framed h hr'
  obtain ⟨hconfig, hinit⟩ := always_serve leaves_sameSettings request engine allowance
  refine ⟨hdelivers, ?_, hrest.transferLimit_le (sameLatencies_of_replays hr)⟩
  exact ⟨hinit.trans hready.initialized, hconfig ▸ hready.wait,
    Controller.framed_of_replays hready.framed hr, hrest.stuckBusy, hrest.inTransaction⟩

/-- **A ready engine serves what it accepts within the limit, and hands over a ready engine.** -/
theorem Ready.spends_serve (hready : engine.Ready) (hvalid : request.Valid)
    (hlogger : ∀ level pieces (logger : κ), ∃ next, Logger.record level pieces logger = .ok next) :
    (serve request).Spends False engine
      (engine.registers.transferLimit request.addr request.legs) fun _ reply after =>
        reply.result = .ok ()
          ∧ HandsOver request.addr request.legs reply.received engine after := by
  have hplan : engine.plan request = .ok (Leg.layout request.addr request.legs) :=
    (plan_eq_ok_iff engine).mpr ⟨hready.initialized, hvalid.addr, hvalid.full, hvalid.fits, rfl⟩
  by_cases hnil : request.operations = []
  · have hlegs : request.legs = [] := by
      rw [Request.legs, hnil]
      rfl
    have hnothing : (performAll [] : Proc (Engine Controller κ) _).Spends False engine
        (engine.registers.transferLimit request.addr []) fun _ reply after =>
          reply.result = .ok () ∧ HandsOver request.addr [] reply.received engine after :=
      Proc.spends_pure
        ⟨rfl, .nil engine.registers, hready, fun addr legs => Nat.le_refl _⟩
    intro n
    rw [serve_of_plan hplan n, hlegs]
    exact hnothing n
  · have hdone := spends_serve_of_free engine hlogger hready.wait hready.stuckBusy
      hready.inTransaction (not_refuses_of_plan hplan) hnil
    have hover : (serve request).Ensures engine fun _ reply after => reply.result = .ok () →
        HandsOver request.addr request.legs reply.received engine after := by
      rintro n ⟨result, received⟩ hok rfl
      exact hready.handsOver_of_ok hnil hok
    refine (hdone.and_ensures hover).mono (Nat.le_refl _) ?_
    rintro _ reply after - ⟨hok, _, hdelivered⟩
    exact ⟨hok, hdelivered hok⟩

end Engine

end TwoWire
