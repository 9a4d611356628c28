import TwoWire.Proofs.Backlog
import TwoWire.Proofs.Sim.Held
import TwoWire.Proofs.Sim.Sound
import TwoWire.Proofs.Sim.Waiting

/-!
# Latency and patience

How long a bounded policy has to be for a simulated controller with given latencies. The last word
of a transfer sets both counters of the controller, and every reading from there on counts one of
them down, whatever the engine makes it for. So how long the wait for the bus takes at the end
depends on the readings made before it: a final read has waited for its words and then for each
byte, a final write has not waited yet (`Leg.lastReadings`).

From a controller that nothing keeps busy (`Quiescent`) there are two waits that can run out: the
one for the words of a read, or of the final write, and the one for the bus at the end. Which of
them does, if any, is decided by the latencies alone (`Engine.latency_decides`).
-/

namespace TwoWire

open Event

namespace Leg

/-- The bytes that the last leg reads. -/
def lastRead : List Leg → Nat
  | [] => 0
  | [leg] => readTotal [leg]
  | _ :: rest => lastRead rest

theorem lastRead_of_write {legs : List Leg} (h : lastDirection legs = .write) :
    lastRead legs = 0 := by
  induction legs with
  | nil => rfl
  | cons leg rest ih =>
    cases rest with
    | cons second others => exact ih h
    | nil =>
      cases leg with
      | write bytes => rfl
      | read count => cases h

/--
The readings between the last word of some legs and their end, if the words take `txLatency` of
them to go out: a read waits for its words and then for each byte.
-/
def lastReadings (txLatency : Nat) (legs : List Leg) : Nat :=
  match lastDirection legs with
  | .write => 0
  | .read => txLatency + 1 + lastRead legs

end Leg

namespace Sim.Controller

open RegisterBlock (Replays)

variable {c after : Controller} {addr : UInt8}

/-- Nothing keeps the controller busy and nothing was left in its receive FIFO. -/
structure Quiescent (c : Controller) : Prop where
  stuckBusy : c.stuckBusy = false
  inTransaction : c.inTransaction = false
  txPending : c.txPending = 0
  busyHold : c.busyHold = 0
  rx : c.rx.toList = []

/-- The words of a read put its bytes into the receive FIFO, behind those that are there. -/
theorem length_rx_of_replays (haddr : addr ≤ maxAddress) {count : Nat}
    (hle : count ≤ maxReadLength) {last : Bool}
    (hr : Replays c (((Leg.read count).words addr last).map queue) after) :
    after.rx.toList.length = c.rx.toList.length + count := by
  have hcount : (UInt8.ofNat count).toNat = count :=
    UInt8.toNat_ofNat_of_lt' (Nat.lt_of_le_of_lt hle (by decide))
  obtain ⟨opened, haccept, hcounting⟩ := replays_queue hr
  obtain ⟨hphase, -, hrx, -⟩ := accept_start_read haddr haccept
  obtain ⟨asked, haccept', hend⟩ := replays_queue hcounting
  obtain rfl : after = asked := hend
  obtain ⟨-, hfetched, -⟩ := accept_closing_counting hphase haccept'
  rw [hfetched, Fifo.toList_append, List.length_append, hrx, Slave.length_answer, hcount]
  rfl

end Sim.Controller

namespace Engine

open Log (Logger)
open RegisterBlock (Replays)
open Sim (Controller Slave Timing)
open Sim.Controller (Delivers)

variable {κ : Type} [Logger κ] (engine : Engine Controller κ)

/-! ## Moves, one after another -/

/-- Words are queued without fail. -/
theorem ensures_pushAll (words : List TxWord) :
    (performAll (Move.pushAll words)).Ensures engine fun _ reply engine' =>
      reply.result = .ok () ∧ engine'.config = engine.config
        ∧ Replays engine.registers (words.map queue) engine'.registers := by
  induction words generalizing engine with
  | nil => exact Proc.ensures_pure ⟨rfl, rfl, rfl⟩
  | cons word rest ih =>
    have hword : (perform (.push word) : Proc (Engine Controller κ) _).Ensures engine
        fun _ reply engine' => reply.result = .ok () ∧ engine'.config = engine.config
          ∧ engine.registers.accept word = .ok engine'.registers := by
      refine Proc.Ensures.bind ?_
      unfold pushWord onRegisters
      refine Proc.Ensures.zoom ?_
      refine (RegisterBlock.ensures_store .half Offset.txFifo word.bits engine.registers).mono ?_
      exact fun _ _ _ hstored => Proc.ensures_pure ⟨rfl, rfl, hstored.2⟩
    refine ensures_performAll_cons engine (hword.mono ?_)
    rintro _ ⟨_, received⟩ mid ⟨rfl, hsame, haccept⟩
    refine (ih mid).mono ?_
    rintro _ later last ⟨hok, hlast, hrest⟩
    exact ⟨hok, hlast.trans hsame, mid.registers, haccept, hrest⟩

/-- Bytes that are there are collected without fail, with a reading for each. -/
theorem ensures_receive_passed {count : Nat} (hlen : count ≤ engine.registers.rx.toList.length) :
    (performAll (Move.receive count)).Ensures engine fun _ reply engine' =>
      reply.result = .ok () ∧ Passed count engine engine'
        ∧ engine'.registers.rx.toList = engine.registers.rx.toList.drop count := by
  induction count generalizing engine with
  | zero => exact Proc.ensures_pure ⟨rfl, ⟨rfl, .refl engine.registers⟩, rfl⟩
  | succ count ih =>
    have hready : engine.registers.due .rxData = some 0 :=
      Controller.due_rxData (Nat.zero_lt_of_lt hlen)
    refine ensures_performAll_cons engine (Proc.Ensures.bind ?_)
    refine (ensures_await_ready engine hready).mono ?_
    rintro _ _ ready ⟨rfl, hwaited, hrx⟩
    refine Proc.ensures_pure (ensures_performAll_cons ready (Proc.Ensures.bind ?_))
    refine (ensures_popByte_passed ready).mono ?_
    rintro _ value taken ⟨htaken, htail⟩
    refine Proc.ensures_pure ?_
    have hmore : taken.registers.rx.toList = engine.registers.rx.toList.tail := by
      rw [htail, hrx]
    refine (ih taken ?_).mono ?_
    · rw [hmore, List.length_tail]
      omega
    · rintro _ later last ⟨hok, hlast, hdrop⟩
      refine ⟨hok, ?_, ?_⟩
      · have hall := (hwaited.trans htaken).trans hlast
        rwa [Nat.add_comm] at hall
      · rw [hdrop, hmore, List.drop_tail]

/-- An empty receive FIFO is drained with one reading. -/
theorem ensures_drain_passed (hrx : engine.registers.rx.toList = []) :
    (drain : Proc (Engine Controller κ) _).Ensures engine fun _ result engine' =>
      result = .ok () ∧ Passed 1 engine engine'
        ∧ engine'.registers.rx = engine.registers.rx := by
  have hflush : (flushCounting : Proc (Engine Controller κ × Nat) _).Ensures (engine, 0)
      fun _ settled last => settled = .ok true ∧ Passed 1 engine last.1
        ∧ last.1.registers.rx = engine.registers.rx ∧ last.2 = 0 := by
    refine Proc.Ensures.bind (Proc.Ensures.zoom (Proc.Ensures.bind ?_))
    refine (ensures_status_passed engine).mono ?_
    rintro _ s last ⟨rfl, hpassed, hsame⟩
    rw [Controller.rxEmpty_currentStatus.mpr hrx]
    exact Proc.ensures_pure (Proc.Ensures.bind (Proc.ensures_modify (Proc.ensures_pure
      ⟨rfl, hpassed, hsame, rfl⟩)))
  have hpolled : (pollUntil .engine engine.config.wait flushCounting).Ensures (engine, 0)
      fun _ settled last => settled = .ok true ∧ Passed 1 engine last.1
        ∧ last.1.registers.rx = engine.registers.rx ∧ last.2 = 0 := by
    refine ensures_pollUntil_counted (fun _ _ _ => False) (hflush.mono ?_)
      (fun _ _ _ _ hnever => hnever.elim) fun _ _ _ _ hnever => hnever.elim
    rintro _ _ last ⟨rfl, hpassed⟩
    exact ⟨rfl, hpassed⟩
  have hend : (endDrain (.ok true) 0 : Proc (Engine Controller κ) _) = pure (.ok ()) := by
    unfold endDrain
    rw [if_neg (Nat.lt_irrefl 0)]
  rw [drain_eq]
  refine Proc.Ensures.bind (Proc.ensures_get (Proc.Ensures.bind (Proc.Ensures.withLocal ?_)))
  refine hpolled.mono ?_
  rintro _ _ ⟨last, count⟩ ⟨rfl, hpassed, hsame, rfl⟩
  show (endDrain (.ok true) 0).Ensures last _
  rw [hend]
  exact Proc.ensures_pure ⟨rfl, hpassed, hsame⟩

/-! ## Legs -/

/-- What the words of a leg leave: both counters set again, and the bytes of a read to be taken. -/
theorem ensures_words {addr : UInt8} (haddr : addr ≤ maxAddress) {leg : Leg}
    (hfits : leg.fits = true) (hfull : leg ≠ .write []) (last : Bool) :
    (performAll (Move.pushAll (leg.words addr last))).Ensures engine fun _ reply engine' =>
      reply.result = .ok () ∧ engine'.config = engine.config
        ∧ engine'.registers.timing = engine.registers.timing.restart last
        ∧ engine'.registers.rx.toList.length
          = engine.registers.rx.toList.length + Leg.readTotal [leg] := by
  have hne : leg.words addr last ≠ [] := by
    rw [← List.length_pos_iff, Leg.length_words]
    exact Nat.succ_pos _
  have hstop : (leg.words addr last).any TxWord.isStop = last := by
    have hall := Leg.map_isStop_words addr last hfull
    have hany : (leg.words addr last).any TxWord.isStop
        = ((leg.words addr last).map TxWord.isStop).any id := by
      rw [List.any_map]
      rfl
    rw [hany, hall]
    simp
  refine (ensures_pushAll engine _).mono ?_
  rintro _ reply pushed ⟨hok, hsame, hr⟩
  refine ⟨hok, hsame, ?_, ?_⟩
  · rw [Controller.timing_of_replays hne hr, hstop]
  · cases leg with
    | write bytes =>
      rw [(Controller.delivers_write haddr ⟨rfl, rfl⟩ hr).2]
      rfl
    | read count =>
      have hle : count ≤ maxReadLength := by simpa [Leg.fits] using hfits
      rw [Controller.length_rx_of_replays haddr hle hr]
      rfl

/-- A leg fails only where a read waits for its words longer than the policy allows. -/
theorem ensures_leg {addr : UInt8} (haddr : addr ≤ maxAddress) {leg : Leg}
    (hfits : leg.fits = true) (hfull : leg ≠ .write []) (last : Bool)
    (hrx : engine.registers.rx.toList = []) :
    (performAll (Move.pushAll (leg.words addr last) ++ leg.collect)).Ensures engine
      fun _ reply engine' => engine'.config = engine.config ∧ match reply.result with
        | .ok () => engine'.registers.rx.toList = []
          ∧ engine'.registers.timing = (engine.registers.timing.restart last).elapse
            (Leg.lastReadings engine.registers.txLatency [leg])
          ∧ (leg.direction = .read → engine.config.wait.Allows engine.registers.txLatency)
        | .error error => error = .timeout .txEmpty
          ∧ ¬engine.config.wait.Allows engine.registers.txLatency := by
  refine ensures_performAll_append engine ((ensures_words engine haddr hfits hfull last).mono ?_)
  rintro _ ⟨_, received⟩ pushed ⟨rfl, hsame, htiming, hheld⟩
  rw [hrx, List.length_nil, Nat.zero_add] at hheld
  cases leg with
  | write bytes =>
    refine Proc.ensures_pure ⟨hsame, List.eq_nil_of_length_eq_zero hheld, ?_, nofun⟩
    rw [htiming]
    exact (Timing.elapse_zero _).symm
  | read count =>
    have hdue : pushed.registers.due .txEmpty = some engine.registers.txLatency :=
      congrArg some (congrArg Timing.txPending htiming)
    refine ensures_performAll_cons pushed (Proc.Ensures.bind ?_)
    refine (ensures_await_of_due pushed hdue).mono fun _ result sent hwaited => ?_
    obtain ⟨hsent, hwait⟩ := hwaited
    rw [hsame] at hwait
    refine Proc.ensures_pure ?_
    match result with
    | .error error =>
      obtain ⟨rfl, hlate, readings, hpassed⟩ := hwait
      exact ⟨hpassed.config.trans hsame, rfl, hlate⟩
    | .ok () =>
      obtain ⟨hallows, hpassed⟩ := hwait
      have hlen : sent.registers.rx.toList.length = count := by
        rw [hsent, hheld]
        rfl
      refine (ensures_receive_passed sent (Nat.le_of_eq hlen.symm)).mono ?_
      rintro _ ⟨_, more⟩ collected ⟨rfl, hcollected, hdrop⟩
      have hall := hpassed.trans hcollected
      refine ⟨hall.config.trans hsame, ?_, ?_, fun _ => hallows⟩
      · rw [hdrop, ← hlen, List.drop_length]
      · rw [hall.elapsed.timing, htiming]
        rfl

/-- All legs, and where the counters stand after them. -/
theorem ensures_frame {addr : UInt8} (haddr : addr ≤ maxAddress) {legs : List Leg}
    (hne : legs ≠ []) (hfits : legs.all Leg.fits = true) (hfull : ∀ leg ∈ legs, leg ≠ .write [])
    (hrx : engine.registers.rx.toList = []) :
    (performAll (Leg.frame addr legs)).Ensures engine
      fun _ reply engine' => engine'.config = engine.config ∧ match reply.result with
        | .ok () => engine'.registers.rx.toList = []
          ∧ engine'.registers.timing = (engine.registers.timing.restart true).elapse
            (Leg.lastReadings engine.registers.txLatency legs)
          ∧ (Leg.lastDirection legs = .read →
            engine.config.wait.Allows engine.registers.txLatency)
        | .error error => error = .timeout .txEmpty
          ∧ ¬engine.config.wait.Allows engine.registers.txLatency := by
  induction legs generalizing engine with
  | nil => exact absurd rfl hne
  | cons leg rest ih =>
    obtain ⟨hleg, hothers⟩ := List.forall_mem_cons.mp hfull
    rw [List.all_cons, Bool.and_eq_true] at hfits
    refine ensures_performAll_append engine ?_
    refine (ensures_leg engine haddr hfits.1 hleg rest.isEmpty hrx).mono ?_
    rintro _ ⟨result, received⟩ mid ⟨hsame, hmid⟩
    match result with
    | .error error => exact ⟨hsame, hmid⟩
    | .ok () =>
      obtain ⟨hempty, htiming, hread⟩ := hmid
      match rest with
      | [] =>
        exact Proc.ensures_pure ⟨hsame, hempty, htiming, hread⟩
      | next :: others =>
        have hlatency : mid.registers.txLatency = engine.registers.txLatency :=
          congrArg Timing.txLatency htiming
        -- whatever the counters were before, the last STOP has set both of them
        have hrestart : mid.registers.timing.restart true
            = engine.registers.timing.restart true := by
          rw [htiming]
          rfl
        have hrest := ih mid (List.cons_ne_nil next others) hfits.2 hothers hempty
        rw [hsame, hlatency, hrestart] at hrest
        exact hrest

/-- Legs whose words have all been taken are delivered, and the bus is let go. -/
theorem ensures_frame_delivers {addr : UInt8} (haddr : addr ≤ maxAddress) {legs : List Leg}
    (hne : legs ≠ []) (hfits : legs.all Leg.fits = true) (hfull : ∀ leg ∈ legs, leg ≠ .write [])
    (hrx : engine.registers.rx.toList = []) :
    (performAll (Leg.frame addr legs)).Ensures engine fun ev reply engine' =>
      reply.result = .ok () → queued (accesses ev) = Leg.allWords addr legs
        ∧ Delivers addr legs reply.received engine.registers engine'.registers
        ∧ engine'.registers.inTransaction = false := by
  refine ((ensures_performAll engine _).and
    ((always_performAll leaves_replays _).ensures engine)).mono ?_
  rintro ev ⟨_, received⟩ last ⟨hshows, hreplays⟩ rfl
  have hcarried : Leg.CarriedAll addr legs received (accesses ev) := showsAll_frame hshows
  have hr : Replays engine.registers (accesses ev) last.registers :=
    RegisterBlock.replays_accesses.mpr hreplays
  refine ⟨hcarried.queued, (Controller.delivers_legs haddr hfits hrx hcarried hr).1, ?_⟩
  rw [Controller.inTransaction_of_replays hr, hcarried.queued]
  exact TxWord.foldl_holds_of_map_isStop (Leg.map_isStop_allWords addr hne hfull) _

/-! ## Before and after the legs -/

/-- Over a quiescent controller, a transfer is opened with three readings. -/
theorem ensures_opening_passed (hquiescent : engine.registers.Quiescent) :
    (performAll Move.opening).Ensures engine fun _ reply engine' =>
      reply = ⟨.ok (), []⟩ ∧ Passed 3 engine engine'
        ∧ engine'.registers.rx.toList = [] := by
  have hfree : engine.registers.due .busIdle = some 0 := by
    rw [Controller.due_busIdle hquiescent.stuckBusy hquiescent.inTransaction
      hquiescent.txPending, hquiescent.busyHold]
  refine ensures_performAll_cons engine (Proc.Ensures.bind ?_)
  refine (ensures_await_ready engine hfree).mono ?_
  rintro _ _ idle ⟨rfl, hidle, hrx⟩
  have hsent : idle.registers.due .txEmpty = some 0 := by
    have hle := hidle.elapsed.quiet.txPending
    rw [hquiescent.txPending] at hle
    exact congrArg some (Nat.le_zero.mp hle)
  refine Proc.ensures_pure (ensures_performAll_cons idle (Proc.Ensures.bind ?_))
  refine (ensures_await_ready idle hsent).mono ?_
  rintro _ _ sent ⟨rfl, hpassed, hrx'⟩
  have hempty : sent.registers.rx.toList = [] := by
    rw [hrx', hrx, hquiescent.rx]
  refine Proc.ensures_pure (ensures_performAll_cons sent (Proc.Ensures.bind ?_))
  refine (ensures_drain_passed sent hempty).mono ?_
  rintro _ _ last ⟨rfl, hdrained, hrx''⟩
  refine Proc.ensures_pure (Proc.ensures_pure ⟨rfl, ?_, ?_⟩)
  · exact (hidle.trans hpassed).trans hdrained
  · rw [hrx'', hempty]

/-- How a transfer ends whose words take `sent` polls to go out, and the bus `free` after them. -/
def EndsBy (policy : WaitPolicy) (sent free : Nat) : Except TransferError Unit → Prop
  | .ok () => policy.Allows sent ∧ policy.Allows free
  | .error error => error = .timeout .txEmpty ∧ ¬policy.Allows sent
    ∨ error = .timeout .busIdle ∧ policy.Allows sent ∧ ¬policy.Allows free

theorem EndsBy.iff {policy : WaitPolicy} {sent free : Nat} {result : Except TransferError Unit}
    (h : EndsBy policy sent free result) :
    (result = .ok () ↔ policy.Allows sent ∧ policy.Allows free)
      ∧ (result = .error (.timeout .txEmpty) ↔ ¬policy.Allows sent)
      ∧ (result = .error (.timeout .busIdle) ↔ policy.Allows sent ∧ ¬policy.Allows free) := by
  match result, h with
  | .ok (), ⟨hsent, hfree⟩ => simp [hsent, hfree]
  | .error _, .inl ⟨rfl, hsent⟩ => simp [hsent]
  | .error _, .inr ⟨rfl, hsent, hfree⟩ => simp [hsent, hfree]

/-- The last wait of a transfer, once its words have gone out. -/
theorem ensures_await_busIdle {sent free : Nat} (hallows : engine.config.wait.Allows sent)
    (hdue : engine.registers.due .busIdle = some free) :
    (performAll [.await .busIdle]).Ensures engine fun _ reply engine' =>
      reply.received = [] ∧ (∃ readings, Passed readings engine engine')
        ∧ EndsBy engine.config.wait sent free reply.result := by
  refine ensures_performAll_cons engine (Proc.Ensures.bind ?_)
  refine (ensures_await_of_due engine hdue).mono fun _ result last hwaited => ?_
  obtain ⟨-, hwait⟩ := hwaited
  refine Proc.ensures_pure ?_
  match result with
  | .error error =>
    obtain ⟨rfl, hlate, hpassed⟩ := hwait
    exact ⟨rfl, hpassed, Or.inr ⟨rfl, hallows, hlate⟩⟩
  | .ok () =>
    obtain ⟨hmet, hpassed⟩ := hwait
    exact Proc.ensures_pure ⟨rfl, ⟨free + 1, hpassed⟩, hallows, hmet⟩

/--
The end of a transfer. A read has waited for its words and taken its bytes by then, so the bus has
been counted down for as long; after a write the wait for its words is still to come.
-/
theorem ensures_closing_due {t : Timing} {legs : List Leg}
    (hstuck : t.stuckBusy = false) (hidle : engine.registers.inTransaction = false)
    (htiming : engine.registers.timing
      = (t.restart true).elapse (Leg.lastReadings t.txLatency legs))
    (hread : Leg.lastDirection legs = .read → engine.config.wait.Allows t.txLatency) :
    (performAll (Move.closing (Leg.lastDirection legs))).Ensures engine fun _ reply engine' =>
      reply.received = [] ∧ (∃ readings, Passed readings engine engine')
        ∧ EndsBy engine.config.wait t.txLatency (t.stopLatency - (Leg.lastRead legs + 1))
          reply.result := by
  cases hdir : Leg.lastDirection legs with
  | read =>
    have hreadings : Leg.lastReadings t.txLatency legs = t.txLatency + 1 + Leg.lastRead legs := by
      rw [Leg.lastReadings, hdir]
    rw [hreadings] at htiming
    exact ensures_await_busIdle engine (hread hdir)
      (Controller.due_busIdle_of_timing htiming hstuck hidle)
  | write =>
    have hreadings : Leg.lastReadings t.txLatency legs = 0 := by
      rw [Leg.lastReadings, hdir]
    rw [hreadings, Timing.elapse_zero] at htiming
    rw [Leg.lastRead_of_write hdir]
    have hdue : engine.registers.due .txEmpty = some t.txLatency :=
      congrArg some (congrArg Timing.txPending htiming)
    refine ensures_performAll_cons engine (Proc.Ensures.bind ?_)
    refine (ensures_await_of_due engine hdue).mono fun _ result sent hwaited => ?_
    obtain ⟨-, hwait⟩ := hwaited
    refine Proc.ensures_pure ?_
    match result with
    | .error error =>
      obtain ⟨rfl, hlate, hpassed⟩ := hwait
      exact ⟨rfl, hpassed, Or.inl ⟨rfl, hlate⟩⟩
    | .ok () =>
      obtain ⟨hallows, hpassed⟩ := hwait
      have hlater : sent.registers.timing = (t.restart true).elapse (t.txLatency + 1 + 0) := by
        rw [hpassed.elapsed.timing, htiming, Nat.add_zero]
      have hfree := Controller.due_busIdle_of_timing hlater hstuck
        (hpassed.elapsed.quiet.inTransaction.trans hidle)
      have hsame := hpassed.config
      rw [← hsame] at hallows
      refine (ensures_await_busIdle sent hallows hfree).mono ?_
      rintro _ ⟨result, received⟩ last ⟨hnil, ⟨readings, hlast⟩, hends⟩
      rw [hsame] at hends
      exact ⟨hnil, ⟨_, hpassed.trans hlast⟩, hends⟩

/-- **How a transfer over a quiescent controller ends, and what it has done by then.** -/
theorem ensures_layout {addr : UInt8} (haddr : addr ≤ maxAddress) {legs : List Leg}
    (hne : legs ≠ []) (hfits : legs.all Leg.fits = true) (hfull : ∀ leg ∈ legs, leg ≠ .write [])
    (hquiescent : engine.registers.Quiescent) :
    (performAll (Leg.layout addr legs)).Ensures engine fun ev reply engine' =>
      EndsBy engine.config.wait engine.registers.txLatency
          (engine.registers.stopLatency - (Leg.lastRead legs + 1)) reply.result
        ∧ (engine.config.wait.Allows engine.registers.txLatency →
          queued (accesses ev) = Leg.allWords addr legs
            ∧ Delivers addr legs reply.received engine.registers engine'.registers) := by
  rw [Leg.layout_of_ne_nil hne]
  refine ensures_performAll_append engine ?_
  refine ((ensures_opening_passed engine hquiescent).and ((always_performAll_of_ne_push
    waits_queued Move.push_not_mem_opening).ensures engine)).mono ?_
  rintro opened _ idle ⟨⟨rfl, hpassed, hempty⟩, hopened⟩
  have hpolicy : idle.config.wait = engine.config.wait := congrArg Config.wait hpassed.config
  have hlatency : idle.registers.txLatency = engine.registers.txLatency :=
    congrArg Timing.txLatency hpassed.elapsed.timing
  refine ensures_performAll_append idle ?_
  refine ((ensures_frame idle haddr hne hfits hfull hempty).and
    (ensures_frame_delivers idle haddr hne hfits hfull hempty)).mono ?_
  rintro framed ⟨result, received⟩ carried ⟨⟨hsame, htimed⟩, hdelivered⟩
  rw [hpolicy, hlatency] at htimed
  match result with
  | .error error =>
    obtain ⟨rfl, hlate⟩ := htimed
    exact ⟨Or.inl ⟨rfl, hlate⟩, fun hallows => absurd hallows hlate⟩
  | .ok () =>
    obtain ⟨-, htiming, hread⟩ := htimed
    obtain ⟨hqueued, hdelivers, hfree⟩ := hdelivered rfl
    -- the counters were set again by the last STOP, so that the opening took time is forgotten
    have hrestarted : carried.registers.timing = (engine.registers.timing.restart true).elapse
        (Leg.lastReadings engine.registers.timing.txLatency legs) := by
      rw [htiming, hpassed.elapsed.timing]
      rfl
    rw [← hpolicy, ← hsame] at hread ⊢
    refine ((ensures_closing_due carried hquiescent.stuckBusy hfree hrestarted hread).and
      ((always_performAll_of_ne_push waits_queued
        (Move.push_not_mem_closing _)).ensures carried)).mono ?_
    rintro closed ⟨result, more⟩ last ⟨⟨rfl, ⟨readings, hlast⟩, hends⟩, hclosed⟩
    refine ⟨hends, fun _ => ⟨?_, ?_⟩⟩
    · simp only [accesses_append, queued_append, hopened, hqueued, hclosed, List.nil_append,
        List.append_nil]
    · show Delivers addr legs ([] ++ (received ++ [])) engine.registers last.registers
      rw [List.nil_append, List.append_nil]
      exact hdelivers.of_quiet hpassed.elapsed.quiet hlast.elapsed.quiet

/-! ## Requests -/

/--
**Latency decides how a transfer ends, to the poll.**

Let nothing keep the controller busy, let the policy allow `k` polls after the first, and let the
request be accepted and not be empty; and let neither the logger nor the allowance end the run. Let
`T` and `S` be the latencies of the controller, and let the last run of the request read `n` bytes,
none if it writes. Then there is a reply. It is success if and only if `T ≤ k` and `S ≤ k + 1 + n`;
it is a timeout of the transmit FIFO if and only if `k < T`; and it is a timeout of the bus if and
only if `T ≤ k` and `k + 1 + n < S`.

Unless the transmit FIFO has timed out, all words have been queued, the slave has done all that the
legs ask of it, the other slaves nothing, and the buffers hold what the slave gave: so they do even
where the bus has not become free in time.
-/
theorem latency_decides (engine : Engine Controller κ) (request : Request) (allowance : Nat)
    {k : Nat} (hquiescent : engine.registers.Quiescent)
    (hpolls : engine.config.wait.maxPolls = some k)
    (haccepted : ∀ error, ¬engine.Refuses request error) (hne : request.operations ≠ [])
    (hlogger : ∀ level pieces (logger : κ), ∃ next, Logger.record level pieces logger = .ok next)
    (hlimit : Leg.accessLimit (k + 1) request.addr request.legs ≤ allowance) :
    let before := engine.registers
    let run := serve request engine allowance
    let after := run.state.registers
    let T := before.txLatency
    let S := before.stopLatency
    let n := Leg.lastRead request.legs
    ∃ reply, run.outcome = .ok reply
      ∧ (reply.result = .ok () ↔ T ≤ k ∧ S ≤ k + 1 + n)
      ∧ (reply.result = .error (.timeout .txEmpty) ↔ k < T)
      ∧ (reply.result = .error (.timeout .busIdle) ↔ T ≤ k ∧ k + 1 + n < S)
      ∧ (T ≤ k → queued (accesses run.events) = Leg.allWords request.addr request.legs
        ∧ after.slaves[request.addr]?
          = before.slaves[request.addr]?.map (fun slave => (slave.serve request.legs).2)
        ∧ (∀ other, other ≠ request.addr → after.slaves[other]? = before.slaves[other]?)
        ∧ (request.fill reply.received).flatten
          = Slave.answer before.slaves[request.addr]? request.legs) := by
  intro before run after T S n
  have hsound : Sound Controller κ := sound_controller hlogger
  have hspends : (serve request).Spends False engine
      (Leg.accessLimit (k + 1) request.addr request.legs)
      fun _ _ engine' => engine'.config = engine.config :=
    spends_serve (fun _ => hsound) hpolls haccepted
  obtain ⟨reply, hreply⟩ : ∃ reply, run.outcome = .ok reply := hspends.exists_answer id hlimit
  have hserved : (serve request).Ensures engine fun ev reply engine' =>
      EndsBy engine.config.wait T (S - (n + 1)) reply.result
        ∧ (engine.config.wait.Allows T →
          queued (accesses ev) = Leg.allWords request.addr request.legs
            ∧ Delivers request.addr request.legs reply.received before engine'.registers) := by
    refine ensures_serve engine request (fun error herror => ?_) fun moves hplan => ?_
    · exact absurd (plan_eq_error_iff.mp herror) (haccepted error)
    · obtain ⟨-, haddr, hfull, hfits, rfl⟩ := (plan_eq_ok_iff engine).mp hplan
      have hlegs : ∀ leg ∈ request.legs, leg ≠ .write [] :=
        Leg.ne_write_nil_of_mem_ofOperations (by simpa using hfull)
      exact ensures_layout engine haddr (legs_ne_nil hne) hfits hlegs hquiescent
  obtain ⟨hends, hdelivered⟩ := hserved allowance reply hreply
  have hsent : engine.config.wait.Allows T ↔ T ≤ k := WaitPolicy.allows_iff hpolls
  have hfree : engine.config.wait.Allows (S - (n + 1)) ↔ S ≤ k + 1 + n := by
    rw [WaitPolicy.allows_iff hpolls]
    omega
  obtain ⟨hok, htx, hbus⟩ := hends.iff
  refine ⟨reply, hreply, ?_, ?_, ?_, fun hle => ?_⟩
  · rw [hok, hsent, hfree]
  · rw [htx, hsent, Nat.not_le]
  · rw [hbus, hsent, hfree, Nat.not_le]
  · obtain ⟨hqueued, hdelivers⟩ := hdelivered (hsent.mpr hle)
    refine ⟨hqueued, ?_, fun other hother => ?_, hdelivers.flatten_fill⟩
    · rw [hdelivers.slaves, Std.ExtTreeMap.getElem?_modify_self]
    · rw [hdelivers.slaves, Std.ExtTreeMap.getElem?_modify, if_neg]
      exact fun h => hother (Std.LawfulEqCmp.eq_of_compare h).symm

/-- Two registers are read with two polls more than the first: in time, and one reading late. -/
theorem bus_free_one_reading_late :
    let scene := fun T S =>
      ((Controller.ofLatency T S).attach 0x48 1).setRegisters 0x48 0x10 [0xAA, 0xBB]
    let engine := fun T S => (⟨⟨15, .bounded 2 1⟩, true, scene T S, ()⟩ : Engine Controller Unit)
    let request := Request.readRegisters 0x48 (.byte 0x10) [0, 0]
    let served := fun T S => serve request (engine T S) 130
    (∀ T S, (scene T S).Quiescent) ∧ (∀ T S error, ¬(engine T S).Refuses request error)
      ∧ Leg.accessLimit (2 + 1) request.addr request.legs ≤ 130
      ∧ (∃ received, (served 2 5).outcome = .ok ⟨.ok (), received⟩)
      ∧ (∃ received, (served 2 6).outcome = .ok ⟨.error (.timeout .busIdle), received⟩
        ∧ (request.fill received).flatten = [0xAA, 0xBB])
      ∧ ∃ received, (served 3 0).outcome = .ok ⟨.error (.timeout .txEmpty), received⟩ := by
  intro scene engine request served
  have hquiescent : ∀ T S, (scene T S).Quiescent := fun _ _ => ⟨rfl, rfl, rfl, rfl, rfl⟩
  have haccepted : ∀ T S error, ¬(engine T S).Refuses request error :=
    fun _ _ => not_refuses_of_fits rfl (by decide) rfl rfl
  have hlimit : Leg.accessLimit (2 + 1) request.addr request.legs ≤ 130 := by decide
  have hdecided := fun T S => latency_decides (engine T S) request 130 (hquiescent T S) rfl
    (haccepted T S) nofun (fun _ _ _ => ⟨_, rfl⟩) hlimit
  obtain ⟨⟨_, intime⟩, htime, hok, -⟩ := hdecided 2 5
  obtain ⟨⟨_, late⟩, hlate, -, -, hbus, hdone⟩ := hdecided 2 6
  obtain ⟨⟨_, stuck⟩, hstuck, -, htx, -⟩ := hdecided 3 0
  obtain rfl := hok.mpr (by decide)
  obtain rfl := hbus.mpr (by decide)
  obtain rfl := htx.mpr (by decide)
  obtain ⟨-, -, -, hfilled⟩ := hdone (by decide)
  exact ⟨hquiescent, haccepted, hlimit, ⟨intime, htime⟩, ⟨late, hlate, hfilled⟩, stuck, hstuck⟩

end Engine

end TwoWire
