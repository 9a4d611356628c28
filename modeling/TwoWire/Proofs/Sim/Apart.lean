import TwoWire.Proofs.Sim.Handover
import TwoWire.Proofs.Sim.RegisterFile

/-!
# Slaves that have nothing to do with one another

A transfer leaves alone the slaves that it does not address, however it ends. While a transaction
that something else began holds the bus, it does not get past its first wait. Otherwise no phase is
open when it begins, and from then on a phase is open only for its own slave (`Controller.Aims`).

So transfers to different slaves do not see one another. Served by a ready engine, each of them
gives the reply that it would give by itself, and the slaves end up the same in whatever order the
transfers are made (`Engine.Ready.order_indifferent`).
-/

namespace TwoWire

open Event
open Proc (Always Chained)

/-! ## Phases -/

namespace Sim

/-- The slave that an open phase is for. -/
def Phase.target? : Phase → Option UInt8
  | .idle => none
  | .writing addr _ | .counting addr => some addr

namespace Controller

variable {addr : UInt8} {c next after : Controller}

/-- If a phase is open, then it is for this slave. -/
def Aims (addr : UInt8) (c : Controller) : Prop :=
  ∀ target, c.phase.target? = some target → target = addr

/-- All slaves but one are the same. -/
def SameBut (addr : UInt8) (before after : Controller) : Prop :=
  ∀ other, other ≠ addr → after.slaves[other]? = before.slaves[other]?

theorem SameBut.trans (h : SameBut addr c next) (h' : SameBut addr next after) :
    SameBut addr c after :=
  fun other hne => (h' other hne).trans (h other hne)

theorem sameBut_of_slaves_eq (h : after.slaves = c.slaves) : SameBut addr c after :=
  fun other _ => by rw [h]

theorem sameBut_of_modify {f : Slave → Slave} (h : after.slaves = c.slaves.modify addr f) :
    SameBut addr c after := by
  intro other hne
  rw [h, getElem?_modify_of_ne hne]

theorem aims_of_idle (h : c.phase = .idle) : c.Aims addr := by
  intro target htarget
  rw [h] at htarget
  cases htarget

/-- From one state to another, other slaves stay the same as long as phases aim at this one. -/
def Spares (addr : UInt8) (before after : Controller) : Prop :=
  before.Aims addr → after.Aims addr ∧ SameBut addr before after

theorem Spares.refl (addr : UInt8) (c : Controller) : Spares addr c c :=
  fun haims => ⟨haims, fun _ _ => rfl⟩

theorem Spares.trans (h : Spares addr c next) (h' : Spares addr next after) :
    Spares addr c after := by
  intro haims
  obtain ⟨hmid, hsame⟩ := h haims
  obtain ⟨hafter, hsame'⟩ := h' hmid
  exact ⟨hafter, hsame.trans hsame'⟩

theorem Quiet.spares (h : Quiet c after) : Spares addr c after := by
  intro haims
  refine ⟨fun target htarget => haims target ?_, sameBut_of_slaves_eq h.slaves⟩
  rwa [h.phase] at htarget

/-! ## Words -/

theorem spares_endTransaction (c : Controller) : Spares addr c c.endTransaction := by
  obtain ⟨ended, hstop, -⟩ := endTransaction_eq c
  rw [hstop]
  exact fun _ => ⟨aims_of_idle rfl, sameBut_of_slaves_eq rfl⟩

theorem spares_taken {word : TxWord} (hword : word.isStart = true → word.payload >>> 1 = addr)
    (h : Taken c word next) : Spares addr c next := by
  intro haims
  cases h with
  | openRead hstart =>
    obtain rfl := hword hstart
    exact ⟨fun target htarget => (Option.some.inj htarget).symm, sameBut_of_slaves_eq rfl⟩
  | openWrite hstart =>
    obtain rfl := hword hstart
    exact ⟨fun target htarget => (Option.some.inj htarget).symm, sameBut_of_modify rfl⟩
  | byte hdata hphase =>
    obtain rfl := haims _ (by rw [hphase]; rfl)
    exact ⟨fun target htarget => (Option.some.inj htarget).symm, sameBut_of_modify rfl⟩
  | count hdata hphase =>
    obtain rfl := haims _ (by rw [hphase]; rfl)
    exact ⟨aims_of_idle rfl, sameBut_of_modify rfl⟩

/-- A word concerns the slave that its START is for, or the one that the open phase is for. -/
theorem spares_accept {word : TxWord}
    (hword : word.isStart = true → word.payload >>> 1 = addr)
    (hok : c.accept word = .ok next) : Spares addr c next := by
  obtain ⟨taken, htaken, ⟨-, rfl⟩ | ⟨-, rfl⟩⟩ := accept_cases hok
  · exact spares_taken hword htaken
  · exact (spares_taken hword htaken).trans (spares_endTransaction taken)

end Controller

end Sim

/-! ## The words of a transfer -/

/-- START comes with the address of the leg, and no other word has it. -/
theorem Leg.payload_of_isStart {addr : UInt8} (haddr : addr ≤ maxAddress) {leg : Leg} {last : Bool}
    {word : TxWord} (hmem : word ∈ leg.words addr last) (hstart : word.isStart = true) :
    word.payload >>> 1 = addr := by
  have hbytes : ∀ bytes : List UInt8, word ∉ TxWord.ofBytes bytes last := by
    intro bytes hbyte
    have hmark : word.isStart ∈ List.replicate bytes.length false := by
      rw [← TxWord.map_isStart_ofBytes bytes last]
      exact List.mem_map_of_mem hbyte
    rw [hstart] at hmark
    cases List.eq_of_mem_replicate hmark
  cases leg with
  | write bytes =>
    rcases List.mem_cons.mp hmem with rfl | hbyte
    · exact TxWord.payload_start_shift haddr .write
    · exact absurd hbyte (hbytes bytes)
  | read count =>
    rcases List.mem_cons.mp hmem with rfl | hcount
    · exact TxWord.payload_start_shift haddr .read
    · exact absurd hcount (hbytes [UInt8.ofNat count])

theorem Leg.exists_words_of_mem_frame {addr : UInt8} {legs : List Leg} {word : TxWord}
    (hmem : .push word ∈ Leg.frame addr legs) :
    ∃ leg : Leg, ∃ last, word ∈ leg.words addr last := by
  induction legs with
  | nil => cases hmem
  | cons leg rest ih =>
    rw [Leg.frame, List.mem_append, List.mem_append] at hmem
    rcases hmem with (hpush | hcollect) | hrest
    · obtain ⟨queued, hqueued, heq⟩ := List.mem_map.mp hpush
      obtain rfl := Move.push.inj heq
      exact ⟨leg, rest.isEmpty, hqueued⟩
    · exact absurd hcollect (leg.push_not_mem_collect word)
    · exact ih hrest

/-- The words that a transfer queues are those of its legs. -/
theorem Leg.exists_words_of_mem_layout {addr : UInt8} {legs : List Leg} {word : TxWord}
    (hmem : .push word ∈ Leg.layout addr legs) :
    ∃ leg : Leg, ∃ last, word ∈ leg.words addr last := by
  unfold Leg.layout at hmem
  split at hmem
  · cases hmem
  · rw [List.mem_append, List.mem_append] at hmem
    rcases hmem with (hopening | hframe) | hclosing
    · exact absurd hopening (Move.push_not_mem_opening word)
    · exact exists_words_of_mem_frame hframe
    · exact absurd hclosing (Move.push_not_mem_closing _ word)

/-! ## Transfers -/

namespace Engine

open Log (Logger)
open Sim (Controller Slave)
open Sim.Controller (Quiet Spares SameBut)

variable {κ : Type} [Logger κ]

/-- Waiting leaves phases and slaves alone. -/
theorem waits_quiet :
    Waits fun (engine : Engine Controller κ) _ after => Quiet engine.registers after.registers := by
  have hr : Chained fun (engine : Engine Controller κ) _ (after : Engine Controller κ) =>
      Quiet engine.registers after.registers := ⟨fun _ => .refl _, fun h h' => h.trans h'⟩
  have hload : ∀ offset, (∀ {c : Controller} {value next},
      c.read .byte offset = .ok (value, next) → Quiet c next) →
      Always (fun (engine : Engine Controller κ) _ after =>
        Quiet engine.registers after.registers)
        (onRegisters (RegisterBlock.load .byte offset)) := by
    intro offset hread
    have hblock : Always (fun c _ next => Quiet c next)
        (RegisterBlock.load .byte offset : Proc Controller UInt8) :=
      RegisterBlock.always_load_of_read (fun c => .refl c) hread
    exact hblock.zoom fun _ _ _ hquiet => hquiet
  refine ⟨hr, ?_, ?_, fun _ _ engine _ => .refl engine.registers,
    fun _ engine _ => .refl engine.registers⟩
  · refine (hload Offset.status fun {c value next} hread => ?_).bind hr
      fun _ => Proc.always_pure hr _
    obtain ⟨-, rfl⟩ := Prod.mk.inj (Except.ok.inj hread)
    exact (Controller.quiet_polled c).1
  · refine hload Offset.rxFifo fun {c value next} hread => ?_
    have hreplays : RegisterBlock.Replays c [takeByte value] next := ⟨next, hread, rfl⟩
    obtain ⟨mid, hquiet, hmid, -⟩ := Controller.replays_takeByte hreplays
    obtain rfl : next = mid := hmid
    exact hquiet

/-- The moves of a transfer leave other slaves alone if phases aim at its own. -/
theorem always_layout_spares {addr : UInt8} (haddr : addr ≤ maxAddress) (legs : List Leg) :
    Always (fun engine _ after => Spares addr engine.registers after.registers)
      (performAll (Leg.layout addr legs) : Proc (Engine Controller κ) _) := by
  have hr : Chained fun (engine : Engine Controller κ) _ (after : Engine Controller κ) =>
      Spares addr engine.registers after.registers :=
    ⟨fun engine => .refl addr engine.registers, fun h h' => h.trans h'⟩
  refine always_performAll_of (waits_quiet.mono hr fun hquiet => hquiet.spares) fun word hmem => ?_
  obtain ⟨leg, last, hword⟩ := Leg.exists_words_of_mem_layout hmem
  have hstore : Always (fun c _ next => Spares addr c next)
      (RegisterBlock.store .half Offset.txFifo word.bits : Proc Controller Unit) :=
    RegisterBlock.always_store_of_write (fun c => .refl addr c)
      fun hok => Controller.spares_accept (Leg.payload_of_isStart haddr hword) hok
  have hpush : Always
      (fun (engine : Engine Controller κ) _ after => Spares addr engine.registers after.registers)
      (onRegisters (RegisterBlock.store .half Offset.txFifo word.bits)) :=
    hstore.zoom fun _ _ _ hspares => hspares
  exact hpush

section Held

variable {engine : Engine Controller κ}

/-- Moves of which the first one fails do what that one does. -/
theorem state_performAll_of_fails {move : Move} {rest : List Move} {allowance : Nat}
    (h : ∀ reply, (perform move engine allowance).outcome = .ok reply →
      ∃ error, reply.result = .error error) :
    (performAll (move :: rest) engine allowance).state
      = (perform move engine allowance).state := by
  unfold performAll
  cases hout : (perform move engine allowance).outcome with
  | error halt => rw [Proc.bind_of_halt hout]
  | ok reply =>
    obtain ⟨error, herror⟩ := h reply hout
    rw [Proc.bind_of_ok hout, herror]
    rfl

/-- While a transaction holds the bus, a transfer leaves all slaves alone. -/
theorem quiet_performAll_of_inTransaction (hin : engine.registers.inTransaction = true)
    (addr : UInt8) (legs : List Leg) (allowance : Nat) :
    Quiet engine.registers
      (performAll (Leg.layout addr legs) engine allowance).state.registers := by
  by_cases hnil : legs = []
  · subst hnil
    exact .refl engine.registers
  · have hfails : (perform (.await .busIdle) : Proc (Engine Controller κ) _).Ensures engine
        fun _ reply _ => ∃ error, reply.result = .error error := by
      refine Proc.Ensures.bind ((ensures_await_due engine .busIdle).mono ?_)
      rintro _ result after ⟨hwaited, -⟩
      refine Proc.ensures_pure ?_
      rcases result with error | _
      · exact ⟨error, rfl⟩
      · obtain ⟨d, hdue, -⟩ := hwaited
        rw [Controller.due_busIdle_eq_none (.inr hin)] at hdue
        cases hdue
    rw [Leg.layout_of_ne_nil hnil]
    show Quiet engine.registers (performAll (.await .busIdle :: _) engine allowance).state.registers
    rw [state_performAll_of_fails (hfails allowance)]
    have hmove : ∀ word, Move.await .busIdle ≠ .push word := nofun
    exact always_perform_of_ne_push waits_quiet hmove engine allowance

/-- **A transfer leaves alone every slave that it does not address, however it ends.** -/
theorem sameBut_serve (hframed : engine.registers.Framed) (request : Request) (allowance : Nat) :
    SameBut request.addr engine.registers
      (serve request engine allowance).state.registers := by
  cases hplan : engine.plan request with
  | error error =>
    rw [serve_of_refuses (plan_eq_error_iff.mp hplan)]
    exact fun _ _ => rfl
  | ok moves =>
    obtain ⟨-, haddr, -, -, rfl⟩ := (plan_eq_ok_iff engine).mp hplan
    rw [serve_of_plan hplan]
    cases hin : engine.registers.inTransaction with
    | true =>
      have hquiet := quiet_performAll_of_inTransaction hin request.addr request.legs allowance
      exact Controller.sameBut_of_slaves_eq hquiet.slaves
    | false =>
      have haims : Controller.Aims request.addr engine.registers :=
        Controller.aims_of_idle (hframed hin)
      exact (always_layout_spares haddr request.legs engine allowance haims).2

end Held

/-! ## Transfers to different slaves -/

/-- What the slaves are once a request has been carried out. -/
def carryOut (slaves : Std.ExtTreeMap UInt8 Slave) (request : Request) :
    Std.ExtTreeMap UInt8 Slave :=
  slaves.modify request.addr fun slave => (slave.serve request.legs).2

/-- The reply to a request that succeeds, by what the slaves are before it. -/
def replyFrom (slaves : Std.ExtTreeMap UInt8 Slave) (request : Request) : Reply TransferError :=
  ⟨.ok (), Slave.answer slaves[request.addr]? request.legs⟩

theorem replyFrom_carryOut {first second : Request} {slaves : Std.ExtTreeMap UInt8 Slave}
    (hne : first.addr ≠ second.addr) :
    replyFrom (carryOut slaves first) second = replyFrom slaves second := by
  rw [replyFrom, replyFrom, carryOut, Sim.getElem?_modify_of_ne hne.symm]

variable {engine : Engine Controller κ} {requests requests' : List Request}

/-- Transfers to different slaves give the replies that they would give by themselves. -/
theorem Ready.spends_serveAll_apart (hready : engine.Ready)
    (hlogger : ∀ level pieces (logger : κ), ∃ next, Logger.record level pieces logger = .ok next)
    (hvalid : ∀ request ∈ requests, request.Valid)
    (hapart : requests.Pairwise fun one other => one.addr ≠ other.addr) :
    (serveAll requests).Spends False engine (engine.sessionLimit requests) fun _ replies after =>
      replies = requests.map (replyFrom engine.registers.slaves)
        ∧ after.registers.slaves = requests.foldl carryOut engine.registers.slaves := by
  induction requests generalizing engine with
  | nil => exact Proc.spends_pure ⟨rfl, rfl⟩
  | cons first rest ih =>
    obtain ⟨hfirst, hrest⟩ := List.forall_mem_cons.mp hvalid
    obtain ⟨hother, hothers⟩ := List.pairwise_cons.mp hapart
    have hlimit : engine.sessionLimit (first :: rest)
        = engine.registers.transferLimit first.addr first.legs + engine.sessionLimit rest := rfl
    rw [hlimit]
    refine Proc.Spends.bind _ _ ((hready.spends_serve hfirst hlogger).mono (Nat.le_refl _) ?_)
    rintro _ ⟨result, received⟩ mid - ⟨rfl, hover⟩
    have hslaves : mid.registers.slaves = carryOut engine.registers.slaves first :=
      hover.delivers.slaves
    have hlater := ih hover.ready hrest hothers
    refine Proc.Spends.bind _ 0 (hlater.mono (hover.sessionLimit_le rest) ?_)
    rintro _ replies after - ⟨rfl, hafter⟩
    refine Proc.spends_pure ⟨?_, ?_⟩
    · have hreplies : rest.map (replyFrom mid.registers.slaves)
          = rest.map (replyFrom engine.registers.slaves) := by
        rw [hslaves]
        exact List.map_congr_left fun request hmem => replyFrom_carryOut (hother request hmem)
      rw [hreplies, List.map_cons, replyFrom, ← hover.delivers.received]
    · rw [hafter, hslaves]
      rfl

/-- **The order in which different slaves are addressed makes no difference.** -/
theorem Ready.order_indifferent (hready : engine.Ready)
    (hlogger : ∀ level pieces (logger : κ), ∃ next, Logger.record level pieces logger = .ok next)
    (hvalid : ∀ request ∈ requests, request.Valid)
    (hapart : requests.Pairwise fun one other => one.addr ≠ other.addr)
    (hperm : requests.Perm requests') :
    ∃ limit, ∀ n, limit ≤ n → ∀ m, limit ≤ m →
      let there := serveAll requests engine n
      let back := serveAll requests' engine m
      there.outcome = .ok (requests.map (replyFrom engine.registers.slaves))
        ∧ back.outcome = .ok (requests'.map (replyFrom engine.registers.slaves))
        ∧ there.state.registers.slaves = back.state.registers.slaves := by
  have hvalid' : ∀ request ∈ requests', request.Valid :=
    fun request hmem => hvalid request (hperm.mem_iff.mpr hmem)
  have hapart' : requests'.Pairwise fun one other => one.addr ≠ other.addr :=
    (hperm.pairwise_iff fun h => h.symm).mp hapart
  have hthere := hready.spends_serveAll_apart hlogger hvalid hapart
  have hback := hready.spends_serveAll_apart hlogger hvalid' hapart'
  refine ⟨max (engine.sessionLimit requests) (engine.sessionLimit requests'), ?_⟩
  intro n hn m hm there back
  obtain ⟨replies, hout⟩ := hthere.exists_answer id (Nat.le_trans (Nat.le_max_left _ _) hn)
  obtain ⟨replies', hout'⟩ := hback.exists_answer id (Nat.le_trans (Nat.le_max_right _ _) hm)
  obtain ⟨-, rfl, hslaves⟩ := hthere.of_ok hout
  obtain ⟨-, rfl, hslaves'⟩ := hback.of_ok hout'
  refine ⟨hout, hout', hslaves.trans ((hperm.foldl_eq' ?_ _).trans hslaves'.symm)⟩
  intro one hone other hother slaves
  by_cases hsame : one = other
  · rw [hsame]
  · have : Std.Symm fun one other : Request => one.addr ≠ other.addr := ⟨fun _ _ h => h.symm⟩
    have hne : one.addr ≠ other.addr := hapart.forall hone hother hsame
    exact Sim.modify_comm hne.symm _ _

/--
**Transfers to one slave do not disturb another.**

However a transfer ends, and in whatever state the controller is, every slave at another address is
as before. Two requests at different addresses that the engine accepts succeed in either order, if
the engine waits without bound and nothing holds the bus; each of them receives the same bytes, and
all slaves end up the same.
-/
theorem transfers_undisturbed (hreach : engine.registers.Reachable) :
    (∀ request allowance other, other ≠ request.addr →
        (serve request engine allowance).state.registers.slaves[other]?
          = engine.registers.slaves[other]?)
      ∧ (engine.config.wait = .infinite → engine.registers.stuckBusy = false →
        engine.registers.inTransaction = false →
        (∀ level pieces (logger : κ), ∃ next, Logger.record level pieces logger = .ok next) →
        ∀ first second, (∀ error, ¬engine.Refuses first error) →
          (∀ error, ¬engine.Refuses second error) → first.addr ≠ second.addr →
          ∃ limit one two, ∀ n, limit ≤ n → ∀ m, limit ≤ m →
            let there := serveAll [first, second] engine n
            let back := serveAll [second, first] engine m
            there.outcome = .ok [⟨.ok (), one⟩, ⟨.ok (), two⟩]
              ∧ back.outcome = .ok [⟨.ok (), two⟩, ⟨.ok (), one⟩]
              ∧ there.state.registers.slaves = back.state.registers.slaves) := by
  refine ⟨fun request allowance => sameBut_serve hreach.framed request allowance, ?_⟩
  intro hwait hstuck hidle hlogger first second hfirst hsecond hne
  obtain ⟨_, hplan, -⟩ := exists_plan hfirst
  obtain ⟨hinit, haddr, hfull, hfits, -⟩ := (plan_eq_ok_iff engine).mp hplan
  obtain ⟨_, hplan', -⟩ := exists_plan hsecond
  obtain ⟨-, haddr', hfull', hfits', -⟩ := (plan_eq_ok_iff engine).mp hplan'
  have hready : engine.Ready := ⟨hinit, hwait, hreach.framed, hstuck, hidle⟩
  have hvalid : ∀ request ∈ [first, second], request.Valid :=
    List.forall_mem_cons.mpr ⟨⟨haddr, hfull, hfits⟩,
      List.forall_mem_singleton.mpr ⟨haddr', hfull', hfits'⟩⟩
  have hapart : [first, second].Pairwise fun one other => one.addr ≠ other.addr :=
    List.pairwise_pair.mpr hne
  obtain ⟨limit, hsame⟩ :=
    hready.order_indifferent hlogger hvalid hapart (.swap second first [])
  exact ⟨limit, _, _, hsame⟩

/-- A slave is written and another one read, or a phase is open for the one that is not written. -/
theorem write_beside_read :
    let scene := twoSlaves.addLatch 0x3B ⟨0x100, 0x80, 1⟩
    let engine : Controller → Engine Controller Unit := fun c => ⟨.standard, true, c, ()⟩
    let write := Request.writeRegisters 0x48 (.byte 1) [7, 8]
    let read := Request.readRegisters 0x3B (.word 0x100) [0, 0]
    (∃ held, scene.write .half Offset.txFifo (TxWord.start 0x3B .write).bits = .ok held
        ∧ ∀ n, (serve write (engine held) n).state.registers.slaves[(0x3B : UInt8)]?
          = held.slaves[(0x3B : UInt8)]?)
      ∧ ∃ limit one two, ∀ n, limit ≤ n → ∀ m, limit ≤ m →
        let there := serveAll [write, read] (engine scene) n
        let back := serveAll [read, write] (engine scene) m
        there.outcome = .ok [⟨.ok (), one⟩, ⟨.ok (), two⟩]
          ∧ back.outcome = .ok [⟨.ok (), two⟩, ⟨.ok (), one⟩]
          ∧ there.state.registers.slaves = back.state.registers.slaves := by
  intro scene engine write read
  have hscene : scene.Reachable :=
    .addLatch (.attach (.setRegisters (.attach (.powerOn 0 1) _ _) _ _ _) _ _) _ _
  have hreach : (engine scene).registers.Reachable := hscene
  refine ⟨⟨_, rfl, fun n => ?_⟩, ?_⟩
  · have hheld : ∀ held, scene.write .half Offset.txFifo (TxWord.start 0x3B .write).bits
        = .ok held → (engine held).registers.Reachable := fun held hok => .write hscene hok
    exact (transfers_undisturbed (hheld _ rfl)).1 write n 0x3B (by decide)
  · refine (transfers_undisturbed hreach).2 rfl rfl rfl
      (fun _ _ _ => ⟨(), rfl⟩) write read ?_ ?_ (by decide)
    · exact not_refuses_of_fits rfl (by decide) rfl rfl
    · exact not_refuses_of_fits rfl (by decide) rfl rfl

end Engine

end TwoWire
