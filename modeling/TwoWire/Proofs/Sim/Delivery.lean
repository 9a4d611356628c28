import TwoWire.Proofs.Handshake
import TwoWire.Proofs.Replay
import TwoWire.Proofs.Sim.Controller

/-!
# Delivery by the simulated controller

A transfer that the engine completes over a simulated controller has reached the slave and nothing
else: each leg is one address phase on the bus, the slave has done what `Slave.serve` says, the
bytes received are the ones that the slave gave, and the controller is at rest again. This holds
from every reachable state, with bytes of an earlier transfer in the receive FIFO, counters running
and whatever slaves there are (`transaction_delivers`).

The proof replays the handshake of the transfer on the controller. Waits and the drain are `Quiet`:
they leave phases and slaves alone. Each leg `Delivers`, which composes over the legs.
-/

namespace TwoWire.Sim

open Event
open RegisterBlock (Replays replays_append replays_accesses)

/-- A leg as the address phase that the bus sees. -/
def Transfer.ofLeg (addr : UInt8) : Leg → Transfer
  | .write bytes => .write addr bytes
  | .read count => .read addr count

namespace Controller

variable {c next after : Controller} {addr : UInt8}

/-! ## Waiting changes nothing -/

/--
Only the counters, the receive FIFO and the record of accesses may have changed, and no counter
has gone up.
-/
structure Quiet (before after : Controller) : Prop where
  ended : after.ended = before.ended
  slaves : after.slaves = before.slaves
  phase : after.phase = before.phase
  inTransaction : after.inTransaction = before.inTransaction
  stuckBusy : after.stuckBusy = before.stuckBusy
  txPending : after.txPending ≤ before.txPending
  busyHold : after.busyHold ≤ before.busyHold

theorem Quiet.refl (c : Controller) : Quiet c c :=
  ⟨rfl, rfl, rfl, rfl, rfl, Nat.le_refl _, Nat.le_refl _⟩

theorem Quiet.trans (h : Quiet c next) (h' : Quiet next after) : Quiet c after :=
  ⟨h'.ended.trans h.ended, h'.slaves.trans h.slaves, h'.phase.trans h.phase,
    h'.inTransaction.trans h.inTransaction, h'.stuckBusy.trans h.stuckBusy,
    Nat.le_trans h'.txPending h.txPending, Nat.le_trans h'.busyHold h.busyHold⟩

theorem Quiet.begun (h : Quiet c after) : after.begun = c.begun := by
  rw [Controller.begun, Controller.begun, transfers, transfers, openTransfer, openTransfer,
    h.ended, h.phase]

/-- The state after a status reading. -/
def polled (c : Controller) : Controller := c.tick.note (.status c.currentStatus)

theorem quiet_polled (c : Controller) : Quiet c c.polled ∧ c.polled.rx = c.rx := by
  unfold polled tick
  split
  · exact ⟨⟨rfl, rfl, rfl, rfl, rfl, Nat.sub_le _ _, Nat.le_refl _⟩, rfl⟩
  · exact ⟨⟨rfl, rfl, rfl, rfl, rfl, Nat.le_refl _, Nat.sub_le _ _⟩, rfl⟩

theorem transfers_polled (c : Controller) : c.polled.transfers = c.transfers :=
  congrArg Trail.toList (quiet_polled c).1.ended

theorem rxEmpty_currentStatus : c.currentStatus.rxEmpty = true ↔ c.rx.toList = [] := by
  rw [← Fifo.isEmpty_iff]
  simp [currentStatus]

theorem replays_readStatus {s : Status} {rest : List Event}
    (h : Replays c (readStatus s :: rest) after) :
    s = c.currentStatus ∧ Replays c.polled rest after := by
  obtain ⟨next, hread, hrest⟩ := h
  obtain ⟨hbits, rfl⟩ := Prod.mk.inj (Except.ok.inj hread)
  obtain ⟨bits⟩ := s
  exact ⟨congrArg Status.mk hbits.symm, hrest⟩

theorem read_rxFifo (c : Controller) :
    RegisterBlock.read .byte Offset.rxFifo c
      = match c.rx.pop? with
        | none => .ok (0, c.note (.rxPop 0))
        | some (value, rx) => .ok (value, { c with rx }.note (.rxPop value)) := rfl

/-- Taking a byte out of the receive FIFO gives the first one there. -/
theorem replays_takeByte {value : UInt8} {rest : List Event}
    (h : Replays c (takeByte value :: rest) after) :
    ∃ next, Quiet c next ∧ Replays next rest after
      ∧ ∀ first more, c.rx.toList = first :: more → value = first ∧ next.rx.toList = more := by
  obtain ⟨next, hread, hrest⟩ := h
  refine ⟨next, ?_, hrest, fun first more hrx => ?_⟩
  · rw [read_rxFifo] at hread
    split at hread <;> obtain ⟨-, rfl⟩ := Prod.mk.inj (Except.ok.inj hread) <;>
      exact ⟨rfl, rfl, rfl, rfl, rfl, Nat.le_refl _, Nat.le_refl _⟩
  · obtain ⟨rx, hpop, hmore⟩ := Fifo.pop?_of_toList_cons hrx
    rw [read_rxFifo, hpop] at hread
    obtain ⟨rfl, rfl⟩ := Prod.mk.inj (Except.ok.inj hread)
    exact ⟨rfl, hmore⟩

theorem quiet_readings {readings : List Status}
    (h : Replays c (readings.map readStatus) after) : Quiet c after ∧ after.rx = c.rx := by
  induction readings generalizing c with
  | nil =>
    obtain rfl : after = c := h
    exact ⟨.refl _, rfl⟩
  | cons s rest ih =>
    obtain ⟨-, hrest⟩ := replays_readStatus h
    obtain ⟨hquiet, hrx⟩ := ih hrest
    exact ⟨(quiet_polled c).1.trans hquiet, hrx.trans (quiet_polled c).2⟩

/-- A wait ends with the reading that shows the flag. -/
theorem quiet_awaited {flag : Flag} {trace : List Event} (h : Awaited flag trace)
    (hr : Replays c trace after) :
    Quiet c after ∧ after.rx = c.rx
      ∧ ∃ last : Controller, flag.holds last.currentStatus = true ∧ after = last.polled := by
  obtain ⟨unmet, s, ⟨readings, -, rfl⟩, hs, rfl⟩ := h
  obtain ⟨last, hunmet, hmet⟩ := replays_append.mp hr
  obtain ⟨rfl, hafter⟩ := replays_readStatus hmet
  obtain rfl : after = last.polled := hafter
  obtain ⟨hquiet, hrx⟩ := quiet_readings hunmet
  exact ⟨hquiet.trans (quiet_polled last).1, (quiet_polled last).2.trans hrx, last, hs, rfl⟩

/-- After waiting for a free bus, nothing keeps the bus busy. -/
theorem free_of_awaited {trace : List Event} (h : Awaited .busIdle trace)
    (hr : Replays c trace after) :
    after.stuckBusy = false ∧ after.inTransaction = false ∧ after.busyHold = 0 := by
  obtain ⟨-, -, last, hholds, rfl⟩ := quiet_awaited h hr
  have hquiet := (quiet_polled last).1
  obtain ⟨⟨hstuck, hin⟩, hhold⟩ :
      (last.stuckBusy = false ∧ last.inTransaction = false) ∧ last.busyHold = 0 := by
    simpa [Flag.holds, currentStatus, busy] using hholds
  exact ⟨hquiet.stuckBusy.trans hstuck, hquiet.inTransaction.trans hin,
    Nat.le_zero.mp (hhold ▸ hquiet.busyHold)⟩

/-- After waiting for the transmit FIFO, no word is pending. -/
theorem sent_of_awaited {trace : List Event} (h : Awaited .txEmpty trace)
    (hr : Replays c trace after) : after.txPending = 0 := by
  obtain ⟨-, -, last, hholds, rfl⟩ := quiet_awaited h hr
  have hsent : last.txPending = 0 := by simpa [Flag.holds, currentStatus] using hholds
  exact Nat.le_zero.mp (hsent ▸ (quiet_polled last).1.txPending)

/-- Emptying the receive FIFO leaves it empty, whatever was in it. -/
theorem quiet_drained {trace : List Event} (h : Drained trace) (hr : Replays c trace after) :
    Quiet c after ∧ after.rx.toList = [] := by
  obtain ⟨_, s, ⟨taken, -, rfl⟩, hs, rfl⟩ := h
  obtain ⟨last, htaken, hmet⟩ := replays_append.mp hr
  obtain ⟨rfl, hafter⟩ := replays_readStatus hmet
  obtain rfl : after = last.polled := hafter
  -- each round reads the status and takes one byte out, both of which are quiet
  have hquiet : Quiet c last := by
    clear hr hmet hs
    induction taken generalizing c with
    | nil => exact htaken ▸ .refl c
    | cons p rest ih =>
      obtain ⟨-, hpop⟩ := replays_readStatus htaken
      obtain ⟨popped, hpopped, hrest, -⟩ := replays_takeByte hpop
      exact ((quiet_polled c).1.trans hpopped).trans (ih hrest)
  refine ⟨hquiet.trans (quiet_polled last).1, ?_⟩
  rw [(quiet_polled last).2]
  exact rxEmpty_currentStatus.mp hs

/-- Bytes are collected in the order in which they are in the receive FIFO. -/
theorem quiet_collected {received : List UInt8} {trace : List Event}
    (h : Collected received trace) (hr : Replays c trace after)
    (hlen : c.rx.toList.length = received.length) :
    Quiet c after ∧ received = c.rx.toList ∧ after.rx.toList = [] := by
  induction received generalizing c trace with
  | nil =>
    subst h
    obtain rfl : after = c := hr
    have hrx := List.eq_nil_of_length_eq_zero hlen
    exact ⟨.refl _, hrx.symm, hrx⟩
  | cons value rest ih =>
    obtain ⟨waiting, more, hwait, hmore, rfl⟩ := h
    obtain ⟨ready, hwaited, hrest⟩ := replays_append.mp hr
    obtain ⟨hready, hrx, -⟩ := quiet_awaited hwait hwaited
    obtain ⟨popped, hpopped, hafter, htaken⟩ := replays_takeByte hrest
    match hlist : c.rx.toList, hlen with
    | first :: others, hlen =>
      obtain ⟨rfl, hothers⟩ := htaken first others (hrx ▸ hlist)
      obtain ⟨hquiet, rfl, hempty⟩ := ih hmore hafter (by simpa [hothers] using hlen)
      exact ⟨(hready.trans hpopped).trans hquiet, by rw [hothers], hempty⟩

/-! ## Legs -/

/-- What legs leave behind, and the bytes that come back. -/
structure Delivers (addr : UInt8) (legs : List Leg) (received : List UInt8)
    (before after : Controller) : Prop where
  begun : after.begun = before.begun ++ legs.map (Transfer.ofLeg addr)
  slaves : after.slaves = before.slaves.modify addr fun slave => (slave.serve legs).2
  received : received = Slave.answer before.slaves[addr]? legs

theorem Delivers.nil (c : Controller) : Delivers addr [] [] c c :=
  ⟨by simp, modify_self.symm, (Slave.answer_nil _).symm⟩

theorem Delivers.cons {leg : Leg} {rest : List Leg} {received₁ received₂ : List UInt8}
    (h : Delivers addr [leg] received₁ c next) (h' : Delivers addr rest received₂ next after) :
    Delivers addr (leg :: rest) (received₁ ++ received₂) c after := by
  refine ⟨by rw [h'.begun, h.begun]; simp, ?_, ?_⟩
  · rw [h'.slaves, h.slaves, modify_modify]
    simp [Slave.serve]
  · rw [h.received, h'.received, h.slaves, Std.ExtTreeMap.getElem?_modify_self,
      Slave.answer_cons _ leg rest]

/-- What does not touch phases and slaves may come before and after. -/
theorem Delivers.of_quiet {legs : List Leg} {received : List UInt8} {first last : Controller}
    (h : Delivers addr legs received first last) (hbefore : Quiet c first)
    (hafter : Quiet last after) : Delivers addr legs received c after := by
  refine ⟨by rw [hafter.begun, h.begun, hbefore.begun], ?_, ?_⟩
  · rw [hafter.slaves, h.slaves, hbefore.slaves]
  · rw [h.received, hbefore.slaves]

/-- A request that has been delivered fills its buffers with what the slave gave. -/
theorem Delivers.flatten_fill {request : Request} {received : List UInt8}
    (h : Delivers request.addr request.legs received c after) :
    (request.fill received).flatten = Slave.answer c.slaves[request.addr]? request.legs := by
  have hlen : received.length = Leg.readTotal request.legs := by
    rw [h.received, Slave.length_answer]
  have hbuffers : request.buffers.flatten.length = received.length := by
    rw [hlen, ← Request.buffers_operations, Leg.length_flatten_buffers, Request.legs]
  rw [Request.flatten_fill request (Nat.le_of_eq hlen),
    List.drop_eq_nil_of_le (Nat.le_of_eq hbuffers), List.append_nil, h.received]

theorem replays_queue {word : TxWord} {rest : List Event}
    (h : Replays c (queue word :: rest) after) :
    ∃ next, c.accept word = .ok next ∧ Replays next rest after := h

/-- The bytes of a write reach the slave one after another. -/
theorem written_of_replays {bytes : List UInt8} {last : Bool} {sofar : Trail UInt8}
    (hphase : c.phase = .writing addr sofar)
    (hr : Replays c ((TxWord.ofBytes bytes last).map queue) after) :
    after.begun = c.transfers ++ [.write addr (sofar.toList ++ bytes)] ∧ after.rx = c.rx
      ∧ after.slaves = c.slaves.modify addr fun slave => slave.writeMany sofar.size bytes := by
  induction bytes generalizing c sofar with
  | nil =>
    obtain rfl : after = c := hr
    exact ⟨by simp [begun, openTransfer, hphase], rfl, modify_self.symm⟩
  | cons byte rest ih =>
    cases rest with
    | nil =>
      obtain ⟨next, haccept, hend⟩ := replays_queue hr
      obtain rfl : after = next := hend
      obtain ⟨hbegun, hrx, hslaves, -⟩ := accept_closing_writing hphase haccept
      exact ⟨hbegun, hrx, hslaves⟩
    | cons second rest =>
      obtain ⟨next, haccept, hrest⟩ := replays_queue hr
      have hdata : c.accept (.closing byte false) = .ok next := haccept
      obtain ⟨-, hrx, hslaves, hopen⟩ := accept_closing_writing hphase hdata
      obtain ⟨hphase', htransfers⟩ := hopen rfl
      obtain ⟨hbegun, hrx', hslaves'⟩ := ih hphase' hrest
      refine ⟨by rw [hbegun, htransfers]; simp, hrx'.trans hrx, ?_⟩
      rw [hslaves', hslaves, modify_modify]
      rfl

theorem delivers_write (haddr : addr ≤ maxAddress) {bytes : List UInt8} {last : Bool}
    {received : List UInt8} {trace : List Event}
    (h : (Leg.write bytes).Carried addr last received trace) (hr : Replays c trace after) :
    Delivers addr [.write bytes] received c after ∧ after.rx = c.rx := by
  obtain ⟨rfl, rfl⟩ := h
  obtain ⟨opened, haccept, hbytes⟩ := replays_queue hr
  obtain ⟨hphase, htransfers, hrx, hslaves⟩ := accept_start_write haddr haccept
  obtain ⟨hbegun, hrx', hslaves'⟩ := written_of_replays hphase hbytes
  refine ⟨⟨?_, ?_, ?_⟩, hrx'.trans hrx⟩
  · rw [hbegun, htransfers]
    rfl
  · rw [hslaves', hslaves, modify_modify]
    simp only [Slave.serve, Slave.carry]
    congr 1
    exact funext fun slave => slave.writeMany_zero bytes
  · exact (List.eq_nil_of_length_eq_zero (Slave.length_answer _ _)).symm

/-- A read starts with an empty receive FIFO, so the bytes that it collects are its own. -/
theorem delivers_read (haddr : addr ≤ maxAddress) {count : Nat} (hle : count ≤ maxReadLength)
    (hrx : c.rx.toList = []) {last : Bool} {received : List UInt8} {trace : List Event}
    (h : (Leg.read count).Carried addr last received trace) (hr : Replays c trace after) :
    Delivers addr [.read count] received c after ∧ after.rx.toList = []
      ∧ after.txPending = 0 := by
  obtain ⟨hlen, waiting, collected, hwait, hcollected, rfl⟩ := h
  have hcount : (UInt8.ofNat count).toNat = count :=
    UInt8.toNat_ofNat_of_lt' (Nat.lt_of_le_of_lt hle (by decide))
  obtain ⟨opened, haccept, hcounting⟩ := replays_queue hr
  obtain ⟨hphase, htransfers, hrx', hslaves⟩ := accept_start_read haddr haccept
  obtain ⟨asked, haccept', hrest⟩ := replays_queue hcounting
  obtain ⟨hbegun, hfetched, hslaves'⟩ := accept_closing_counting hphase haccept'
  rw [hcount] at hbegun hfetched hslaves'
  have hanswer : asked.rx.toList = Slave.answer c.slaves[addr]? [.read count] := by
    rw [hfetched, Fifo.toList_append, hrx', hrx, hslaves, List.nil_append]
  obtain ⟨ready, hwaited, htaken⟩ := replays_append.mp hrest
  obtain ⟨hready, hrxready, -⟩ := quiet_awaited hwait hwaited
  have hheld : ready.rx.toList.length = received.length := by
    rw [hrxready, hanswer, Slave.length_answer, hlen]
    rfl
  obtain ⟨hquiet, hreceived, hempty⟩ := quiet_collected hcollected htaken hheld
  have hpending : ready.txPending = 0 := sent_of_awaited hwait hwaited
  refine ⟨⟨?_, ?_, ?_⟩, hempty, Nat.le_zero.mp (hpending ▸ hquiet.txPending)⟩
  · rw [hquiet.begun, hready.begun, hbegun, htransfers]
    rfl
  · rw [hquiet.slaves, hready.slaves, hslaves', hslaves]
    rfl
  · rw [hreceived, hrxready, hanswer]

/-- **A leg is delivered**, if the receive FIFO is empty before it; and it is empty after it. -/
theorem delivers_leg (haddr : addr ≤ maxAddress) {leg : Leg} (hfits : leg.fits = true)
    (hrx : c.rx.toList = []) {last : Bool} {received : List UInt8} {trace : List Event}
    (h : leg.Carried addr last received trace) (hr : Replays c trace after) :
    Delivers addr [leg] received c after ∧ after.rx.toList = []
      ∧ (leg.direction = .read → after.txPending = 0) := by
  cases leg with
  | write bytes =>
    obtain ⟨hdelivers, hsame⟩ := delivers_write haddr h hr
    exact ⟨hdelivers, by rw [hsame, hrx], nofun⟩
  | read count =>
    have hle : count ≤ maxReadLength := by simpa [Leg.fits] using hfits
    obtain ⟨hdelivers, hempty, hpending⟩ := delivers_read haddr hle hrx h hr
    exact ⟨hdelivers, hempty, fun _ => hpending⟩

/-- Legs are delivered one after another. -/
theorem delivers_legs (haddr : addr ≤ maxAddress) {legs : List Leg}
    (hfits : legs.all Leg.fits = true) (hrx : c.rx.toList = []) {received : List UInt8}
    {trace : List Event} (h : Leg.CarriedAll addr legs received trace)
    (hr : Replays c trace after) :
    Delivers addr legs received c after ∧ after.rx.toList = []
      ∧ (Leg.lastDirection legs = .read → after.txPending = 0) := by
  induction legs generalizing c received trace with
  | nil =>
    obtain ⟨rfl, rfl⟩ := h
    obtain rfl : after = c := hr
    exact ⟨.nil _, hrx, nofun⟩
  | cons leg rest ih =>
    obtain ⟨r₁, r₂, t₁, t₂, hleg, hrest, rfl, rfl⟩ := h
    obtain ⟨next, hr₁, hr₂⟩ := replays_append.mp hr
    rw [List.all_cons, Bool.and_eq_true] at hfits
    obtain ⟨hdelivers, hempty, hsent⟩ := delivers_leg haddr hfits.1 hrx hleg hr₁
    obtain ⟨hdelivers', hempty', hsent'⟩ := ih hfits.2 hempty hrest hr₂
    refine ⟨hdelivers.cons hdelivers', hempty', ?_⟩
    -- the direction in which legs end is that of the last one
    match rest, hrest, hsent' with
    | [], ⟨_, htrace⟩, _ =>
      subst htrace
      obtain rfl : after = next := hr₂
      exact hsent
    | _ :: _, _, hsent' => exact hsent'

/-! ## Transfers -/

/-- Nothing is under way and nothing is left over. -/
structure AtRest (c : Controller) : Prop where
  phase : c.phase = .idle
  inTransaction : c.inTransaction = false
  rx : c.rx.toList = []
  txPending : c.txPending = 0
  busyHold : c.busyHold = 0
  stuckBusy : c.stuckBusy = false

theorem framed_of_replays {trace : List Event} (h : c.Framed) (hr : Replays c trace after) :
    after.Framed :=
  hr.invariant (p := Framed) (fun h hok => h.read hok) (fun h hok => h.write hok) h

/-- Outside a transaction no write is open. -/
theorem Framed.begun (h : c.Framed) (hin : c.inTransaction = false) :
    c.begun = c.transfers := by
  rw [Controller.begun, openTransfer, h hin, List.append_nil]

/--
After the end of a transfer nothing is under way. A transfer that ends in a read does not wait for
the transmit FIFO at its end, since its last leg has done so.
-/
theorem quiet_concluded {dir : Direction} {trace : List Event} (h : Concluded dir trace)
    (hsent : dir = .read → c.txPending = 0) (hr : Replays c trace after) :
    Quiet c after ∧ after.rx = c.rx ∧ after.txPending = 0 ∧ after.stuckBusy = false
      ∧ after.inTransaction = false ∧ after.busyHold = 0 := by
  cases dir with
  | write =>
    obtain ⟨sent, free, hwait, hfree, rfl⟩ := h
    obtain ⟨mid, hr₁, hr₂⟩ := replays_append.mp hr
    obtain ⟨hquiet₁, hrx₁, -⟩ := quiet_awaited hwait hr₁
    obtain ⟨hquiet₂, hrx₂, -⟩ := quiet_awaited hfree hr₂
    have hpending : mid.txPending = 0 := sent_of_awaited hwait hr₁
    refine ⟨hquiet₁.trans hquiet₂, hrx₂.trans hrx₁, ?_, free_of_awaited hfree hr₂⟩
    exact Nat.le_zero.mp (hpending ▸ hquiet₂.txPending)
  | read =>
    obtain ⟨hquiet, hrx, -⟩ := quiet_awaited h hr
    have hpending : c.txPending = 0 := hsent rfl
    refine ⟨hquiet, hrx, ?_, free_of_awaited h hr⟩
    exact Nat.le_zero.mp (hpending ▸ hquiet.txPending)

/-- The handshake of a transfer, replayed on the controller. -/
theorem delivers_handshake (haddr : addr ≤ maxAddress) {legs : List Leg}
    (hfits : legs.all Leg.fits = true) (hframed : c.Framed) {received : List UInt8}
    {trace : List Event} (h : Handshake addr legs received trace) (hr : Replays c trace after) :
    Delivers addr legs received c after ∧ c.begun = c.transfers
      ∧ after.begun = after.transfers ∧ after.AtRest := by
  have hframed' : after.Framed := framed_of_replays hframed hr
  obtain ⟨free, sent, drained, carried, concluded, hfree, hsent, hdrained, hcarried, hconcluded,
    rfl⟩ := h
  obtain ⟨c₄, hr, hr₅⟩ := replays_append.mp hr
  obtain ⟨c₃, hr, hr₄⟩ := replays_append.mp hr
  obtain ⟨c₂, hr, hr₃⟩ := replays_append.mp hr
  obtain ⟨c₁, hr₁, hr₂⟩ := replays_append.mp hr
  -- up to the first leg, nothing happens but that the controller comes to rest
  obtain ⟨hquiet₁, -, -⟩ := quiet_awaited hfree hr₁
  obtain ⟨hquiet₂, -, -⟩ := quiet_awaited hsent hr₂
  obtain ⟨hquiet₃, hempty⟩ := quiet_drained hdrained hr₃
  have hbefore : Quiet c c₃ := (hquiet₁.trans hquiet₂).trans hquiet₃
  have hidle : c.inTransaction = false := by
    rw [← hquiet₁.inTransaction]
    exact (free_of_awaited hfree hr₁).2.1
  obtain ⟨hdelivers, hempty', hread⟩ := delivers_legs haddr hfits hempty hcarried hr₄
  obtain ⟨hquiet₅, hrx, hpending, hstuck, hidle', hhold⟩ := quiet_concluded hconcluded hread hr₅
  refine ⟨hdelivers.of_quiet hbefore hquiet₅, hframed.begun hidle, hframed'.begun hidle', ?_⟩
  exact ⟨hframed' hidle', hidle', by rw [hrx, hempty'], hpending, hhold, hstuck⟩

end Controller

end TwoWire.Sim

namespace TwoWire.Engine

open Log (Logger)
open Sim (Controller Slave Transfer)

variable {κ : Type} [Logger κ]

/--
**A transaction that succeeds has been delivered, whatever state the controller was in.**

The bus has seen one address phase for each maximal run and no other. The slave has done what the
runs ask of a slave, the other slaves have done nothing, and the buffers, joined, hold the bytes
that the slave gave, or all ones if there is none: no byte that was in the receive FIFO before. The
controller is at rest.
-/
theorem transaction_delivers {addr : UInt8} {ops : List Operation} (hne : ops ≠ [])
    {engine : Engine Controller κ} (hreach : engine.registers.Reachable) {allowance : Nat}
    {received : List UInt8}
    (hok : (serve (.transaction addr ops) engine allowance).outcome = .ok ⟨.ok (), received⟩) :
    let before := engine.registers
    let after := (serve (.transaction addr ops) engine allowance).state.registers
    let legs := Leg.ofOperations ops
    after.transfers = before.transfers ++ legs.map (Transfer.ofLeg addr)
      ∧ after.slaves[addr]? = before.slaves[addr]?.map (fun slave => (slave.serve legs).2)
      ∧ (∀ other, other ≠ addr → after.slaves[other]? = before.slaves[other]?)
      ∧ ((Request.transaction addr ops).fill received).flatten
        = Slave.answer before.slaves[addr]? legs
      ∧ after.AtRest := by
  intro before after legs
  have hops : (Request.transaction addr ops).operations ≠ [] := hne
  obtain ⟨haddr, -, hfits, h⟩ := handshake_of_serve hops hok
  have hr := RegisterBlock.replays_accesses.mpr (serve_replays (.transaction addr ops) engine
    allowance)
  obtain ⟨hdelivers, hbefore, hafter, hrest⟩ :
      Controller.Delivers addr legs received before after ∧ before.begun = before.transfers
        ∧ after.begun = after.transfers ∧ after.AtRest :=
    Controller.delivers_handshake haddr hfits hreach.framed h hr
  have hlen : received.length = Leg.readTotal legs := by
    rw [hdelivers.received, Slave.length_answer]
  have hbuffers : (Operation.buffers ops).flatten.length = Leg.readTotal legs :=
    Leg.length_flatten_buffers ops
  refine ⟨by rw [← hafter, hdelivers.begun, hbefore], ?_, fun other hother => ?_, ?_, hrest⟩
  · rw [hdelivers.slaves, Std.ExtTreeMap.getElem?_modify_self]
  · rw [hdelivers.slaves, Sim.getElem?_modify_of_ne hother]
  · rw [Request.flatten_fill _ (Nat.le_of_eq hlen), Request.buffers,
      List.drop_eq_nil_of_le (by omega), List.append_nil, hdelivers.received]

/-- A slave with a latch due on its second register, and a stale byte in the receive FIFO. -/
def staleScene : Controller :=
  ((((Controller.ofLatency 1 2).attach 0x48 1).setRegisters 0x48 0x10 [0xAA, 0x00]).addLatch 0x48
    ⟨0x11, 0x80, 1⟩).preload [0xEE]

theorem reachable_staleScene : staleScene.Reachable :=
  .preload (.addLatch (.setRegisters (.attach (.powerOn 1 2) _ _) _ _ _) _ _) _

/-- Two registers are read, and the stale byte is not delivered. -/
theorem stale_byte_is_not_delivered :
    let engine : Engine Controller Unit := ⟨.standard, true, staleScene, ()⟩
    let ops := [Operation.write [0x10], .read [0], .read [0]]
    let after := (serve (.transaction 0x48 ops) engine 60).state.registers
    ops ≠ [] ∧ staleScene.Reachable
      ∧ (serve (.transaction 0x48 ops) engine 60).outcome = .ok ⟨.ok (), [0xAA, 0x80]⟩
      ∧ after.transfers = [.write 0x48 [0x10], .read 0x48 2]
      ∧ Slave.answer staleScene.slaves[(0x48 : UInt8)]? (Leg.ofOperations ops) = [0xAA, 0x80]
      ∧ after.AtRest := by
  have hne : [Operation.write [0x10], .read [0], .read [0]] ≠ [] := nofun
  have hok : (serve (.transaction 0x48 [.write [0x10], .read [0], .read [0]])
      (⟨.standard, true, staleScene, ()⟩ : Engine Controller Unit) 60).outcome
      = .ok ⟨.ok (), [0xAA, 0x80]⟩ := rfl
  have hreach : (⟨.standard, true, staleScene, ()⟩ : Engine Controller Unit).registers.Reachable :=
    reachable_staleScene
  obtain ⟨htransfers, -, -, hanswer, hrest⟩ := transaction_delivers hne hreach hok
  exact ⟨hne, reachable_staleScene, hok, htransfers, hanswer.symm, hrest⟩

end TwoWire.Engine
