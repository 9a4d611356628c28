import TwoWire.Proofs.Endless
import TwoWire.Proofs.Sim.Latency

/-!
# Waiting without bound on the simulated controller

Under the policy without bound, a wait ends as soon as its flag is due. `Engine.Completes` says that
moves are carried out within a limit of accesses; it joins along `++`, so that the limit of a
transfer is what its parts take together (`Controller.transferLimit`): the counters and the bytes
that an earlier transfer has left, the words and the bytes of this one, and its own latencies.

All that a transfer needs is a bus that nothing holds. Otherwise it does not get past its first
wait, which uses up everything (`usesUp_await_busIdle`). The two cases together are
`Engine.endless_wait_decided`.
-/

namespace TwoWire

open Event

namespace Sim.Controller

variable {c : Controller}

/-- A bus that nothing holds becomes free after its counters have run out. -/
theorem exists_due_busIdle (hstuck : c.stuckBusy = false) (hidle : c.inTransaction = false) :
    ∃ d ≤ c.txPending + c.busyHold, c.due .busIdle = some d := by
  unfold due
  rw [hstuck, hidle]
  by_cases hfree : c.busyHold = 0
  · exact ⟨0, Nat.zero_le _, (if_neg Bool.false_ne_true).trans (if_pos hfree)⟩
  · exact ⟨_, Nat.le_refl _, (if_neg Bool.false_ne_true).trans (if_neg hfree)⟩

/-- A bus that something holds never becomes free. -/
theorem due_busIdle_eq_none (hheld : c.stuckBusy = true ∨ c.inTransaction = true) :
    c.due .busIdle = none := by
  unfold due
  rcases hheld with hstuck | hin
  · simp [hstuck]
  · simp [hin]

/--
The most accesses of a transfer without bound over this controller: what an earlier transfer has
left is waited out and drained, the legs take their words and their bytes, and the waits for the
words and for the bus take as long as the latencies say.
-/
def transferLimit (c : Controller) (addr : UInt8) (legs : List Leg) : Nat :=
  2 * c.txPending + c.busyHold + 2 * c.rx.size + (Leg.allWords addr legs).length
    + 2 * Leg.readTotal legs + (Leg.readLegs legs + 1) * (c.txLatency + 1) + c.stopLatency + 4

/-- A byte that is preloaded takes a reading of the status and one of the FIFO. -/
theorem transferLimit_preload (c : Controller) (bytes : List UInt8) (addr : UInt8)
    (legs : List Leg) :
    (c.preload bytes).transferLimit addr legs = c.transferLimit addr legs + 2 * bytes.length := by
  have hsize : (c.preload bytes).rx.size = c.rx.size + bytes.length := by
    rw [← Fifo.length_toList, toList_preload, List.length_append, Fifo.length_toList]
  unfold transferLimit
  rw [hsize]
  simp only [preload]
  omega

end Sim.Controller

namespace Engine

open Log (Logger)
open Sim (Controller Timing)
open Sim.Controller (holds_currentStatus_iff)

variable {κ : Type} [Logger κ] (engine : Engine Controller κ)

section Waits

variable
  (hlogger : ∀ level pieces (logger : κ), ∃ next, Logger.record level pieces logger = .ok next)
include hlogger

/-! ## Single accesses -/

theorem spends_status_passed : (status : Proc (Engine Controller κ) Status).Spends False engine 1
    fun _ s engine' => s = engine.registers.currentStatus ∧ Passed 1 engine engine'
      ∧ engine'.registers.rx = engine.registers.rx := by
  have hread : (status : Proc (Engine Controller κ) Status).Spends False engine 1
      fun _ _ engine' => engine'.config = engine.config :=
    spends_status (fun _ => sound_controller hlogger) engine
  refine (hread.and_ensures (ensures_status_passed engine)).mono (Nat.le_refl 1) ?_
  rintro _ s after - ⟨-, _, hpassed⟩
  exact hpassed

theorem spends_popByte_passed : (popByte : Proc (Engine Controller κ) UInt8).Spends False engine 1
    fun _ _ engine' => Passed 0 engine engine'
      ∧ engine'.registers.rx.toList = engine.registers.rx.toList.tail := by
  have hpop : (popByte : Proc (Engine Controller κ) UInt8).Spends False engine 1
      fun _ _ engine' => engine'.config = engine.config :=
    spends_popByte (fun _ => sound_controller hlogger) engine
  refine (hpop.and_ensures (ensures_popByte_passed engine)).mono (Nat.le_refl 1) ?_
  rintro _ byte after - ⟨-, _, hpassed⟩
  exact hpassed

/-! ## Single waits -/

/-- A flag that will show is waited for until it does. -/
theorem spends_await_of_due (hwait : engine.config.wait = .infinite) {flag : Flag} {d : Nat}
    (hdue : engine.registers.due flag = some d) :
    (await flag : Proc (Engine Controller κ) _).Spends False engine (d + 1)
      fun _ result engine' => result = .ok () ∧ Passed (d + 1) engine engine'
        ∧ engine'.registers.rx = engine.registers.rx := by
  -- after `i` failed polls the flag is still to come, and what is left to spend reaches to it
  let budget (m : Nat) (mid : Engine Controller κ) : Prop :=
    ∃ i, i + m = d + 1 ∧ i ≤ d ∧ Passed i engine mid ∧ mid.registers.rx = engine.registers.rx
  have hpoll : ∀ m mid, budget m mid → (do return .ok (flag.holds (← status)) :
      Proc (Engine Controller κ) (Except Empty Bool)).Spends False mid m fun spent =>
        BudgetStep budget (fun settled _ => settled = .ok true) m spent := by
    rintro m mid ⟨i, hm, hle, hpassed, hrx⟩
    refine Proc.Spends.bind_within ((spends_status_passed mid hlogger).mono (Nat.le_refl 1) ?_)
      (by omega)
    rintro spent s last hspent ⟨rfl, hread, hrx'⟩ -
    refine ⟨0, by omega, Proc.spends_pure ?_⟩
    have hshows := holds_currentStatus_iff hpassed.elapsed hrx flag
    cases hholds : flag.holds mid.registers.currentStatus with
    | true => rfl
    | false =>
      have hlater : i + 1 ≤ d := by
        refine Nat.lt_of_not_le fun hdi => ?_
        rw [hshows.mpr ⟨d, hdue, hdi⟩] at hholds
        cases hholds
      exact ⟨m - 1, by omega, by omega, i + 1, by omega, hlater, hpassed.trans hread,
        hrx'.trans hrx⟩
  have hcosts : (do return .ok (flag.holds (← status)) :
      Proc (Engine Controller κ) (Except Empty Bool)).Costs :=
    costs_status.bind fun _ => Proc.thrifty_pure _
  have hpolled := spends_pollUntil_of_budget .engine starves_status.bind hcosts budget
    hpoll ⟨0, Nat.zero_add _, Nat.zero_le d, ⟨rfl, .refl engine.registers⟩, rfl⟩
  have hmet : (await flag : Proc (Engine Controller κ) _).Spends False engine (0 + (d + 1))
      fun _ result _ => result = .ok () := by
    refine Proc.Spends.bind _ _ (Proc.spends_get ?_)
    rw [hwait]
    refine Proc.Spends.bind_within (hpolled.mono (Nat.le_refl _) ?_) (Nat.le_refl _)
    rintro spent _ _ _ rfl hspent
    exact ⟨0, hspent, Proc.spends_pure rfl⟩
  refine (hmet.and_ensures (ensures_await_of_due engine hdue)).mono (by omega) ?_
  rintro _ _ last - ⟨rfl, ev, hrx, -, hpassed⟩
  exact ⟨rfl, hpassed, hrx⟩

/-- A flush takes a reading for each byte and one more, and stops at an empty FIFO or its limit. -/
theorem spends_flush_stale (limit : Nat) :
    (flush limit : Proc (Engine Controller κ) _).Spends False engine
      (2 * engine.registers.rx.toList.length + 1) fun spent answer engine' =>
        (∃ readings, Passed readings engine engine') ∧ match answer.1 with
          | true => engine'.registers.rx.toList = []
          | false => spent ≤ 2 * limit ∧ engine'.registers.rx.toList.length + limit
            = engine.registers.rx.toList.length := by
  induction limit generalizing engine with
  | zero => exact Proc.spends_pure ⟨⟨0, rfl, .refl engine.registers⟩, Nat.zero_le _, rfl⟩
  | succ limit ih =>
    refine Proc.Spends.bind_within ((spends_status_passed engine hlogger).mono (Nat.le_refl 1) ?_)
      (Nat.le_add_left 1 _)
    rintro spent _ mid - ⟨rfl, hpassed, hrx⟩ hspent
    cases hlist : engine.registers.rx.toList with
    | nil =>
      refine ⟨0, by simpa using hspent, ?_⟩
      rw [Controller.rxEmpty_currentStatus.mpr hlist]
      refine Proc.spends_pure ⟨⟨1, hpassed⟩, ?_⟩
      rw [hrx, hlist]
    | cons byte more =>
      have hfull : engine.registers.currentStatus.rxEmpty = false := by
        rw [← Bool.not_eq_true]
        intro hempty
        have hnil := Controller.rxEmpty_currentStatus.mp hempty
        rw [hlist] at hnil
        cases hnil
      refine ⟨1 + (2 * more.length + 1), by rw [List.length_cons]; omega, ?_⟩
      rw [hfull]
      refine Proc.Spends.bind 1 _ ((spends_popByte_passed mid hlogger).mono (Nat.le_refl 1) ?_)
      rintro one _ taken hone ⟨htaken, htail⟩
      rw [hrx, hlist, List.tail_cons] at htail
      have hrest := ih taken
      rw [htail] at hrest
      refine (Proc.Spends.bind (2 * more.length + 1) 0 (hrest.mono (Nat.le_refl _) ?_))
      rintro later ⟨empty, count⟩ last hlater ⟨⟨readings, hlast⟩, hend⟩
      refine Proc.spends_pure ⟨⟨_, (hpassed.trans htaken).trans hlast⟩, ?_⟩
      cases empty with
      | true => exact hend
      | false =>
        obtain ⟨hcost, hlen⟩ := hend
        refine ⟨by omega, ?_⟩
        rw [List.length_cons, ← hlen]
        rfl

/-- One poll of a drain: it empties the FIFO, or takes out as many bytes as a FIFO holds. -/
theorem spends_flushCounting_stale (state : Engine Controller κ × Nat) :
    (flushCounting : Proc (Engine Controller κ × Nat) _).Spends False state
      (2 * state.1.registers.rx.toList.length + 1) fun spent settled after =>
        (∃ readings, Passed readings state.1 after.1) ∧ match settled with
          | .ok true => after.1.registers.rx.toList = []
          | .ok false => spent ≤ 2 * rxFifoDepth ∧ after.1.registers.rx.toList.length + rxFifoDepth
            = state.1.registers.rx.toList.length := by
  refine Proc.Spends.bind _ 0 (Proc.Spends.zoom ?_)
  refine (spends_flush_stale state.1 hlogger rxFifoDepth).mono (Nat.le_refl _) ?_
  rintro spent ⟨empty, count⟩ after - hflushed
  refine Proc.Spends.bind 0 0 (Proc.spends_modify (Proc.spends_pure ?_))
  cases empty <;> exact hflushed

/-- A drain that has emptied the FIFO has nothing left to do but its record. -/
theorem spends_endDrain_emptied (count : Nat) :
    (endDrain (.ok true) count : Proc (Engine Controller κ) _).Spends False engine 0
      fun _ result engine' => result = .ok () ∧ Passed 0 engine engine'
        ∧ engine'.registers.rx = engine.registers.rx := by
  show Proc.Spends False (if 0 < count then _ else _) engine 0 _
  split
  · have hlog : (log .debug ["axi-iic: discarded ", toString (min count maxDiscarded),
        " stale rx bytes"] : Proc (Engine Controller κ) Unit).Spends False engine 0
          fun _ _ engine' => engine'.config = engine.config :=
      spends_log (fun _ => sound_controller hlogger) engine _ _
    refine Proc.Spends.bind 0 0 ((hlog.and_ensures (ensures_log_passed engine _ _)).mono
      (Nat.le_refl 0) ?_)
    rintro _ _ after - ⟨-, _, hpassed⟩
    exact Proc.spends_pure ⟨rfl, hpassed⟩
  · exact Proc.spends_pure ⟨rfl, ⟨rfl, .refl engine.registers⟩, rfl⟩

/-- The stale bytes are drained, however many there are. -/
theorem spends_drain_stale (hwait : engine.config.wait = .infinite) :
    (drain : Proc (Engine Controller κ) _).Spends False engine
      (2 * engine.registers.rx.toList.length + 1) fun _ result engine' => result = .ok ()
        ∧ (∃ readings, Passed readings engine engine') ∧ engine'.registers.rx.toList = [] := by
  let budget (m : Nat) (state : Engine Controller κ × Nat) : Prop :=
    m = 2 * state.1.registers.rx.toList.length + 1 ∧ ∃ readings, Passed readings engine state.1
  let drained (settled : Except Empty Bool) (state : Engine Controller κ × Nat) : Prop :=
    settled = .ok true ∧ (∃ readings, Passed readings engine state.1)
      ∧ state.1.registers.rx.toList = []
  have hpoll : ∀ m state, budget m state → (flushCounting : Proc (Engine Controller κ × Nat)
      _).Spends False state m fun spent => BudgetStep budget drained m spent := by
    rintro m state ⟨rfl, readings, hpassed⟩
    refine (spends_flushCounting_stale hlogger state).mono (Nat.le_refl _) ?_
    rintro spent settled after - ⟨⟨more, hmore⟩, hflushed⟩
    match settled with
    | .ok true => exact ⟨rfl, ⟨_, hpassed.trans hmore⟩, hflushed⟩
    | .ok false =>
      obtain ⟨hspent, hlen⟩ := hflushed
      refine ⟨2 * after.1.registers.rx.toList.length + 1, ?_, ?_, rfl, _, hpassed.trans hmore⟩
      · rw [← hlen, rxFifoDepth]
        omega
      · omega
  have hpolled := spends_pollUntil_of_budget .engine starves_flushCounting
    costs_flushCounting budget hpoll (s := (engine, 0)) ⟨rfl, 0, rfl, .refl engine.registers⟩
  have hdrain : (drain : Proc (Engine Controller κ) _).Spends False engine
      (0 + (2 * engine.registers.rx.toList.length + 1 + 0)) fun _ result engine' => result = .ok ()
        ∧ (∃ readings, Passed readings engine engine') ∧ engine'.registers.rx.toList = [] := by
    rw [drain_eq]
    refine Proc.Spends.bind _ _ (Proc.spends_get ?_)
    rw [hwait]
    refine Proc.Spends.bind _ 0 (Proc.Spends.withLocal (hpolled.mono (Nat.le_refl _) ?_))
    rintro _ _ ⟨last, count⟩ - ⟨rfl, ⟨readings, hpassed⟩, hempty⟩
    refine (spends_endDrain_emptied last hlogger count).mono (Nat.le_refl 0) ?_
    rintro _ _ after - ⟨rfl, hlogged, hrx⟩
    refine ⟨rfl, ⟨_, hpassed.trans hlogged⟩, ?_⟩
    rw [hrx]
    exact hempty
  exact hdrain.mono (by omega) fun _ _ _ _ h => h

end Waits

/-! ## Moves -/

/-- Within the limit all moves are carried out, and `post` holds of the state they leave. -/
def Completes (moves : List Move) (engine : Engine Controller κ) (limit : Nat)
    (post : Engine Controller κ → Prop) : Prop :=
  (performAll moves).Spends False engine limit fun _ reply engine' =>
    reply.result = .ok () ∧ post engine'

section Completes

variable {engine} {limit : Nat} {post : Engine Controller κ → Prop}

theorem Completes.mono {limit' : Nat} {post' : Engine Controller κ → Prop} {moves : List Move}
    (h : Completes moves engine limit post) (hle : limit ≤ limit')
    (himp : ∀ engine', post engine' → post' engine') : Completes moves engine limit' post' := by
  refine Proc.Spends.mono h hle ?_
  rintro _ reply after - ⟨hok, hpost⟩
  exact ⟨hok, himp after hpost⟩

/-- What holds of every answer holds of the state that moves carried out leave. -/
theorem Completes.and_ensures {moves : List Move}
    {shows : List Event → Reply TransferError → Engine Controller κ → Prop}
    (h : Completes moves engine limit post)
    (h' : (performAll moves).Ensures engine shows) :
    Completes moves engine limit fun engine' => post engine'
      ∧ ∃ ev reply, reply.result = .ok () ∧ shows ev reply engine' := by
  refine (Proc.Spends.and_ensures h h').mono (Nat.le_refl limit) ?_
  rintro _ reply after - ⟨⟨hok, hpost⟩, ev, hshows⟩
  exact ⟨hok, hpost, ev, reply, hok, hshows⟩

theorem completes_nil (h : post engine) : Completes [] engine limit post :=
  Proc.spends_pure ⟨rfl, h⟩

theorem Completes.append {mid : Engine Controller κ → Prop} {first second : List Move}
    (rest : Nat) (h : Completes first engine limit mid)
    (h' : ∀ engine', mid engine' → Completes second engine' rest post) :
    Completes (first ++ second) engine (limit + rest) post := by
  unfold Completes
  rw [performAll_append]
  refine Proc.Spends.bind limit rest (Proc.Spends.mono h (Nat.le_refl limit) ?_)
  rintro spent ⟨_, received⟩ engine' - ⟨rfl, hmid⟩
  exact Proc.Spends.map ((h' engine' hmid).mono (Nat.le_refl rest) fun _ hpost => hpost)

theorem completes_move {move : Move} (h : (perform move).Spends False engine limit
    fun _ reply engine' => reply.result = .ok () ∧ post engine') :
    Completes [move] engine limit post := by
  refine Proc.Spends.bind limit 0 (h.mono (Nat.le_refl limit) ?_)
  rintro spent ⟨_, received⟩ engine' - ⟨rfl, hpost⟩
  exact Proc.Spends.map (Proc.spends_pure ⟨rfl, hpost⟩)

end Completes

theorem completes_words {addr : UInt8} (haddr : addr ≤ maxAddress) {leg : Leg}
    (hfits : leg.fits = true) (hfull : leg ≠ .write []) (last : Bool) :
    Completes (Move.pushAll (leg.words addr last)) engine (leg.words addr last).length
      fun engine' => engine'.config = engine.config
        ∧ engine'.registers.timing = engine.registers.timing.restart last
        ∧ engine'.registers.rx.toList.length
          = engine.registers.rx.toList.length + Leg.readTotal [leg] := by
  have htaken : ¬False → ∃ after, (leg.words addr last).foldlM (fun block word =>
      RegisterBlock.write .half Offset.txFifo word.bits block) engine.registers = .ok after :=
    fun _ => Controller.exists_foldlM_accept leg addr last engine.registers
  refine ((spends_pushAll engine htaken).and_ensures
    (ensures_words engine haddr hfits hfull last)).mono (Nat.le_refl _) ?_
  rintro _ reply after - ⟨-, _, hwords⟩
  exact hwords

section Ends

variable
  (hlogger : ∀ level pieces (logger : κ), ∃ next, Logger.record level pieces logger = .ok next)
include hlogger

theorem completes_await (hwait : engine.config.wait = .infinite) {flag : Flag} {d : Nat}
    (hdue : engine.registers.due flag = some d) :
    Completes [.await flag] engine (d + 1) fun engine' => Passed (d + 1) engine engine'
      ∧ engine'.registers.rx = engine.registers.rx := by
  refine completes_move (Proc.Spends.bind _ 0 ?_)
  refine (spends_await_of_due engine hlogger hwait hdue).mono (Nat.le_refl _) ?_
  exact fun _ _ _ _ hdone => Proc.spends_pure hdone

theorem completes_drain (hwait : engine.config.wait = .infinite) :
    Completes [.drain] engine (2 * engine.registers.rx.toList.length + 1) fun engine' =>
      (∃ readings, Passed readings engine engine') ∧ engine'.registers.rx.toList = [] := by
  refine completes_move (Proc.Spends.bind _ 0 ?_)
  refine (spends_drain_stale engine hlogger hwait).mono (Nat.le_refl _) ?_
  exact fun _ _ _ _ hdone => Proc.spends_pure hdone

theorem completes_pop : Completes [.pop] engine 1 fun engine' => Passed 0 engine engine'
    ∧ engine'.registers.rx.toList = engine.registers.rx.toList.tail := by
  refine completes_move (Proc.Spends.bind _ 0 ?_)
  refine (spends_popByte_passed engine hlogger).mono (Nat.le_refl 1) ?_
  exact fun _ _ _ _ htaken => Proc.spends_pure ⟨rfl, htaken⟩

/-- Bytes that are there are taken with a reading and an access each. -/
theorem completes_receive (hwait : engine.config.wait = .infinite) {count : Nat}
    (hlen : count ≤ engine.registers.rx.toList.length) :
    Completes (Move.receive count) engine (2 * count) fun engine' =>
      Passed count engine engine'
        ∧ engine'.registers.rx.toList = engine.registers.rx.toList.drop count := by
  have hall : Completes (Move.receive count) engine (2 * count) fun _ => True := by
    induction count generalizing engine with
    | zero => exact completes_nil trivial
    | succ count ih =>
      have hready : engine.registers.due .rxData = some 0 :=
        Controller.due_rxData (Nat.zero_lt_of_lt hlen)
      have hsum : 2 * (count + 1) = (0 + 1) + (1 + 2 * count) := by omega
      rw [hsum]
      show Completes ([.await .rxData] ++ ([.pop] ++ Move.receive count)) engine _ _
      refine (completes_await engine hlogger hwait hready).append _ ?_
      rintro waited ⟨hpassed, hrx⟩
      refine (completes_pop waited hlogger).append _ ?_
      rintro taken ⟨htaken, htail⟩
      refine ih taken ?_ ?_
      · rw [htaken.config, hpassed.config, hwait]
      · rw [htail, hrx, List.length_tail]
        omega
  refine (hall.and_ensures (ensures_receive_passed engine hlen)).mono (Nat.le_refl _) ?_
  rintro after ⟨-, _, _, -, -, hreceived⟩
  exact hreceived

/-! ## Legs -/

/-- A read waits for its words, and then takes a reading and an access for each byte. -/
theorem completes_leg (hwait : engine.config.wait = .infinite) {addr : UInt8}
    (haddr : addr ≤ maxAddress) {leg : Leg} (hfits : leg.fits = true) (hfull : leg ≠ .write [])
    (last : Bool) (hrx : engine.registers.rx.toList = []) :
    Completes (Move.pushAll (leg.words addr last) ++ leg.collect) engine
      ((leg.words addr last).length + (Leg.readLegs [leg] * (engine.registers.txLatency + 1)
        + 2 * Leg.readTotal [leg]))
      fun engine' => engine'.config = engine.config ∧ engine'.registers.rx.toList = []
        ∧ engine'.registers.txLatency = engine.registers.txLatency := by
  have hall : Completes (Move.pushAll (leg.words addr last) ++ leg.collect) engine
      ((leg.words addr last).length + (Leg.readLegs [leg] * (engine.registers.txLatency + 1)
        + 2 * Leg.readTotal [leg])) fun _ => True := by
    refine (completes_words engine haddr hfits hfull last).append _ ?_
    rintro pushed ⟨hsame, htiming, hheld⟩
    cases leg with
    | write bytes => exact completes_nil trivial
    | read count =>
      have hlimit : Leg.readLegs [.read count] * (engine.registers.txLatency + 1)
          + 2 * Leg.readTotal [.read count] = engine.registers.txLatency + 1 + 2 * count := by
        simp [Leg.readLegs, Leg.direction, Leg.readTotal]
      have hdue : pushed.registers.due .txEmpty = some engine.registers.txLatency :=
        congrArg some (congrArg Timing.txPending htiming)
      have hwait' : pushed.config.wait = .infinite := by rw [hsame, hwait]
      rw [hlimit]
      refine (completes_await pushed hlogger hwait' hdue).append _ ?_
      rintro sent ⟨hpassed, hsent⟩
      refine (completes_receive sent hlogger ?_ ?_).mono (Nat.le_refl _) fun _ _ => trivial
      · rw [hpassed.config, hwait']
      · rw [hsent, hheld, hrx]
        simp [Leg.readTotal]
  refine (hall.and_ensures (ensures_leg engine haddr hfits hfull last hrx)).mono (Nat.le_refl _) ?_
  rintro after ⟨-, _, ⟨_, received⟩, rfl, hsame, hempty, htiming, -⟩
  exact ⟨hsame, hempty, congrArg Timing.txLatency htiming⟩

theorem completes_frame (hwait : engine.config.wait = .infinite) {addr : UInt8}
    (haddr : addr ≤ maxAddress) {legs : List Leg} (hfits : legs.all Leg.fits = true)
    (hfull : ∀ leg ∈ legs, leg ≠ .write []) (hrx : engine.registers.rx.toList = []) :
    Completes (Leg.frame addr legs) engine ((Leg.allWords addr legs).length
      + (Leg.readLegs legs * (engine.registers.txLatency + 1) + 2 * Leg.readTotal legs))
      fun _ => True := by
  induction legs generalizing engine with
  | nil => exact completes_nil trivial
  | cons leg rest ih =>
    obtain ⟨hleg, hothers⟩ := List.forall_mem_cons.mp hfull
    rw [List.all_cons, Bool.and_eq_true] at hfits
    have hreads : Leg.readLegs (leg :: rest) = Leg.readLegs [leg] + Leg.readLegs rest := by
      rw [← List.singleton_append, Leg.readLegs, List.countP_append, Leg.readLegs, Leg.readLegs]
    have hbytes : Leg.readTotal (leg :: rest) = Leg.readTotal [leg] + Leg.readTotal rest := by
      cases leg <;> simp [Leg.readTotal]
    rw [Leg.frame, Leg.allWords, List.length_append, hreads, hbytes]
    refine ((completes_leg engine hlogger hwait haddr hfits.1 hleg rest.isEmpty hrx).append
      ((Leg.allWords addr rest).length + (Leg.readLegs rest
        * (engine.registers.txLatency + 1) + 2 * Leg.readTotal rest)) ?_).mono ?_ fun _ h => h
    · rintro mid ⟨hsame, hempty, hlatency⟩
      rw [← hlatency]
      exact ih mid (by rw [hsame, hwait]) hfits.2 hothers hempty
    · rw [Nat.add_mul, Nat.mul_add]
      omega

/-! ## Transfers -/

/-- What is stale is waited out: the words and the bus of an earlier transfer, and its bytes. -/
theorem completes_opening (hwait : engine.config.wait = .infinite)
    (hstuck : engine.registers.stuckBusy = false)
    (hidle : engine.registers.inTransaction = false) :
    Completes Move.opening engine (2 * engine.registers.txPending + engine.registers.busyHold
      + 2 * engine.registers.rx.size + 3) fun engine' =>
        (∃ readings, Passed readings engine engine') ∧ engine'.registers.rx.toList = [] := by
  obtain ⟨d, hle, hfree⟩ := Controller.exists_due_busIdle hstuck hidle
  have hall : Completes ([.await .busIdle] ++ ([.await .txEmpty] ++ [.drain])) engine
      ((d + 1) + ((engine.registers.txPending + 1) + (2 * engine.registers.rx.size + 1)))
      fun engine' => (∃ readings, Passed readings engine engine')
        ∧ engine'.registers.rx.toList = [] := by
    refine (completes_await engine hlogger hwait hfree).append _ ?_
    rintro free ⟨hpassed, hrx⟩
    have hpending : free.registers.txPending ≤ engine.registers.txPending :=
      hpassed.elapsed.quiet.txPending
    have hwait' : free.config.wait = .infinite := by rw [hpassed.config, hwait]
    refine ((completes_await free hlogger hwait' (d := free.registers.txPending) rfl).mono
      (by omega) fun _ h => h).append _ ?_
    rintro sent ⟨hpassed', hrx'⟩
    have hsize : engine.registers.rx.size = sent.registers.rx.toList.length := by
      rw [hrx', hrx, Sim.Fifo.length_toList]
    rw [hsize]
    refine (completes_drain sent hlogger (by rw [hpassed'.config, hwait'])).mono
      (Nat.le_refl _) ?_
    rintro drained ⟨⟨readings, hdrained⟩, hempty⟩
    exact ⟨⟨_, (hpassed.trans hpassed').trans hdrained⟩, hempty⟩
  exact hall.mono (by omega) fun _ h => h

/-- The end of a transfer waits for its words and then for the bus. -/
theorem completes_closing (hwait : engine.config.wait = .infinite) {T S : Nat}
    (hstuck : engine.registers.stuckBusy = false)
    (hidle : engine.registers.inTransaction = false) (hpending : engine.registers.txPending ≤ T)
    (hhold : engine.registers.busyHold ≤ S) (dir : Direction) :
    Completes (Move.closing dir) engine (T + S + 2) fun _ => True := by
  cases dir with
  | read =>
    obtain ⟨d, hle, hfree⟩ := Controller.exists_due_busIdle hstuck hidle
    exact (completes_await engine hlogger hwait hfree).mono (by omega) fun _ _ => trivial
  | write =>
    have hsum : T + S + 2 = (T + 1) + (S + 1) := by omega
    rw [hsum]
    show Completes ([.await .txEmpty] ++ [.await .busIdle]) engine _ _
    refine ((completes_await engine hlogger hwait (d := engine.registers.txPending) rfl).mono
      (Nat.succ_le_succ hpending) fun _ h => h).append _ ?_
    rintro sent ⟨hpassed, -⟩
    have hquiet := hpassed.elapsed.quiet
    have hsent : sent.registers.txPending = 0 := by
      have helapsed := congrArg Timing.txPending hpassed.elapsed.timing
      have hnone : engine.registers.txPending - (engine.registers.txPending + 1) = 0 := by omega
      exact helapsed.trans hnone
    have hfree := Controller.due_busIdle (hquiet.stuckBusy.trans hstuck)
      (hquiet.inTransaction.trans hidle) hsent
    refine (completes_await sent hlogger (by rw [hpassed.config, hwait]) hfree).mono ?_
      fun _ _ => trivial
    exact Nat.succ_le_succ (Nat.le_trans hquiet.busyHold hhold)

/-- **A transfer over a controller that lets the bus go is carried out within its limit.** -/
theorem completes_layout (hwait : engine.config.wait = .infinite)
    (hstuck : engine.registers.stuckBusy = false)
    (hidle : engine.registers.inTransaction = false) {addr : UInt8} (haddr : addr ≤ maxAddress)
    {legs : List Leg} (hne : legs ≠ []) (hfits : legs.all Leg.fits = true)
    (hfull : ∀ leg ∈ legs, leg ≠ .write []) :
    Completes (Leg.layout addr legs) engine (engine.registers.transferLimit addr legs)
      fun _ => True := by
  rw [Leg.layout_of_ne_nil hne]
  refine ((completes_opening engine hlogger hwait hstuck hidle).append
    ((Leg.allWords addr legs).length
      + (Leg.readLegs legs * (engine.registers.txLatency + 1) + 2 * Leg.readTotal legs)
      + (engine.registers.txLatency + engine.registers.stopLatency + 2)) ?_).mono ?_ fun _ h => h
  · rintro opened ⟨⟨readings, hpassed⟩, hempty⟩
    have hwait' : opened.config.wait = .infinite := by rw [hpassed.config, hwait]
    have hsent : opened.registers.txLatency = engine.registers.txLatency :=
      congrArg Timing.txLatency hpassed.elapsed.timing
    have hfree : opened.registers.stopLatency = engine.registers.stopLatency :=
      congrArg Timing.stopLatency hpassed.elapsed.timing
    rw [← hsent, ← hfree]
    refine (((completes_frame opened hlogger hwait' haddr hfits hfull hempty).and_ensures
      ((ensures_frame opened haddr hne hfits hfull hempty).and
        (ensures_frame_delivers opened haddr hne hfits hfull hempty)))).append _ ?_
    rintro framed ⟨-, _, ⟨_, received⟩, rfl, ⟨hsame, -, htiming, -⟩, hdelivered⟩
    -- the last STOP has set both counters, and from then on they have only been counted down
    have hpending : framed.registers.txPending = opened.registers.txLatency
        - Leg.lastReadings opened.registers.txLatency legs := congrArg Timing.txPending htiming
    have hhold : framed.registers.busyHold = opened.registers.stopLatency
        - (Leg.lastReadings opened.registers.txLatency legs - opened.registers.txLatency) :=
      congrArg Timing.busyHold htiming
    have hstuck' : framed.registers.stuckBusy = opened.registers.stuckBusy :=
      congrArg Timing.stuckBusy htiming
    refine completes_closing framed hlogger (by rw [hsame, hwait']) ?_ (hdelivered rfl).2.2
      (by rw [hpending]; exact Nat.sub_le _ _) (by rw [hhold]; exact Nat.sub_le _ _) _
    rw [hstuck', hpassed.elapsed.quiet.stuckBusy, hstuck]
  · unfold Controller.transferLimit
    rw [Nat.succ_mul (Leg.readLegs legs)]
    omega

/-- **Waiting without bound for a bus that nothing holds**, a request that is accepted succeeds. -/
theorem spends_serve_of_free (hwait : engine.config.wait = .infinite)
    (hstuck : engine.registers.stuckBusy = false)
    (hidle : engine.registers.inTransaction = false) {request : Request}
    (haccepted : ∀ error, ¬engine.Refuses request error) (hne : request.operations ≠ []) :
    (serve request).Spends False engine
      (engine.registers.transferLimit request.addr request.legs)
      fun _ reply _ => reply.result = .ok () := by
  obtain ⟨moves, hplan, -⟩ := exists_plan haccepted
  obtain ⟨-, haddr, hempty, hfits, rfl⟩ := (plan_eq_ok_iff engine).mp hplan
  have hdone := completes_layout engine hlogger hwait hstuck hidle haddr (legs_ne_nil hne) hfits
    (Leg.ne_write_nil_of_mem_ofOperations (by simpa using hempty))
  intro n
  rw [serve_of_plan hplan n]
  exact Proc.Spends.mono hdone (Nat.le_refl _) (fun _ _ _ _ hend => hend.1) n

end Ends

/-! ## A bus that is held -/

/-- While something holds the bus, no wait for it ends. -/
theorem usesUp_await_busIdle (hwait : engine.config.wait = .infinite)
    (hheld : engine.registers.stuckBusy = true ∨ engine.registers.inTransaction = true) :
    (await .busIdle : Proc (Engine Controller κ) _).UsesUp engine readStatus := by
  let held (mid : Engine Controller κ) : Prop :=
    mid.registers.stuckBusy = true ∨ mid.registers.inTransaction = true
  have hpoll : ∀ mid n, held mid → ∃ s mid',
      (do return .ok (Flag.busIdle.holds (← status)) :
        Proc (Engine Controller κ) (Except Empty Bool)) mid (n + 1)
        = ⟨[readStatus s], .ok (.ok false), mid', n⟩ ∧ held mid' := by
    intro mid n hmid
    have hbusy : Flag.busIdle.holds mid.registers.currentStatus = false := by
      rw [← Bool.not_eq_true, holds_currentStatus_iff (.refl mid.registers) rfl,
        Controller.due_busIdle_eq_none hmid]
      rintro ⟨d, hd, -⟩
      cases hd
    have hquiet := (Controller.quiet_polled mid.registers).1
    refine ⟨mid.registers.currentStatus, { mid with registers := mid.registers.polled }, ?_, ?_⟩
    · rw [← hbusy]
      rfl
    · show mid.registers.polled.stuckBusy = true ∨ mid.registers.polled.inTransaction = true
      rw [hquiet.stuckBusy, hquiet.inTransaction]
      exact hmid
  have hcosts : (do return .ok (Flag.busIdle.holds (← status)) :
      Proc (Engine Controller κ) (Except Empty Bool)).Costs :=
    costs_status.bind fun _ => Proc.thrifty_pure _
  refine Proc.UsesUp.get_bind ?_
  rw [hwait]
  exact (usesUp_pollUntil .engine starves_status.bind hcosts hpoll hheld).bind

/-- A transfer over a bus that is held does not get past its first wait. -/
theorem usesUp_layout (hwait : engine.config.wait = .infinite)
    (hheld : engine.registers.stuckBusy = true ∨ engine.registers.inTransaction = true)
    (addr : UInt8) {legs : List Leg} (hne : legs ≠ []) :
    (performAll (Leg.layout addr legs)).UsesUp engine readStatus := by
  obtain ⟨rest, hlayout⟩ : ∃ rest, Leg.layout addr legs = .await .busIdle :: rest :=
    ⟨_, Leg.layout_of_ne_nil hne addr⟩
  rw [hlayout]
  exact (usesUp_await_busIdle engine hwait hheld).bind.bind

/-! ## Requests -/

/--
**Without bound, a request ends exactly if the bus can become free.**

Let the engine wait without bound, and let the request be accepted and not be empty; the controller
may be in any state, with any latencies, counters that run, and any number of bytes left over in its
receive FIFO. If nothing holds the bus, the request succeeds with the accesses that `limit` counts,
given a logger that takes every record. If the bus is stuck or in a transaction, there is no reply
whatever the allowance: it is all spent on readings of the status, and nothing else shows, so that
no word is queued, no byte is taken out, nothing sleeps and nothing is logged.
-/
theorem endless_wait_decided (engine : Engine Controller κ) (request : Request) (allowance : Nat)
    (hwait : engine.config.wait = .infinite)
    (haccepted : ∀ error, ¬engine.Refuses request error) (hne : request.operations ≠ []) :
    let c := engine.registers
    let run := serve request engine allowance
    let words := (Leg.allWords request.addr request.legs).length
    let bytes := Leg.readTotal request.legs
    let waits := Leg.readLegs request.legs + 1
    let limit := 2 * c.txPending + c.busyHold + 2 * c.rx.size + words + 2 * bytes
      + waits * (c.txLatency + 1) + c.stopLatency + 4
    (c.stuckBusy = false → c.inTransaction = false →
        (∀ level pieces (logger : κ), ∃ next, Logger.record level pieces logger = .ok next) →
        limit ≤ allowance → ∃ received, run.outcome = .ok ⟨.ok (), received⟩)
      ∧ (c.stuckBusy = true ∨ c.inTransaction = true →
        run.outcome = .error .exhausted ∧ run.left = 0
          ∧ ∃ readings : List Status, readings.length = allowance
            ∧ run.events = readings.map readStatus) := by
  intro c run words bytes waits limit
  refine ⟨fun hstuck hidle hlogger hlimit => ?_, fun hheld => ?_⟩
  · have hdone := spends_serve_of_free engine hlogger hwait hstuck hidle haccepted hne
    obtain ⟨⟨result, received⟩, hreply⟩ := hdone.exists_answer id hlimit
    obtain ⟨-, rfl⟩ := hdone.of_ok hreply
    exact ⟨received, hreply⟩
  · obtain ⟨moves, hplan, -⟩ := exists_plan haccepted
    obtain ⟨-, -, -, -, rfl⟩ := (plan_eq_ok_iff engine).mp hplan
    have hrun : run = performAll (Leg.layout request.addr request.legs) engine allowance :=
      serve_of_plan hplan allowance
    rw [hrun]
    obtain ⟨hout, hleft, hshown⟩ :=
      usesUp_layout engine hwait hheld request.addr (legs_ne_nil hne) allowance
    exact ⟨hout, hleft, hshown⟩

/-- Twenty stale bytes are waited out; on a stuck bus, and on one that is held, nothing ends. -/
theorem stale_bytes_waited_out :
    let free := (Controller.ofLatency 2 3).preload (List.replicate 20 0xEE)
    let stuck := free.setStuck true
    let held := { free with inTransaction := true }
    let engine := fun controller =>
      (⟨⟨15, .infinite⟩, true, controller, ()⟩ : Engine Controller Unit)
    let request := Request.readRegisters 0x48 (.byte 0x10) [0, 0]
    (∀ controller error, ¬(engine controller).Refuses request error)
      ∧ (∃ received, (serve request (engine free) 61).outcome = .ok ⟨.ok (), received⟩)
      ∧ (∀ n, (serve request (engine stuck) n).outcome = .error .exhausted)
      ∧ ∀ n, (serve request (engine held) n).outcome = .error .exhausted := by
  intro free stuck held engine request
  have haccepted : ∀ controller error, ¬(engine controller).Refuses request error :=
    fun _ => not_refuses_of_fits rfl (by decide) rfl rfl
  have hdecided := fun controller n => endless_wait_decided (engine controller) request n rfl
    (haccepted controller) nofun
  refine ⟨haccepted, ?_, fun n => ?_, fun n => ?_⟩
  · exact (hdecided free 61).1 rfl rfl (fun _ _ _ => ⟨_, rfl⟩) (by decide)
  · exact ((hdecided stuck n).2 (.inl rfl)).1
  · exact ((hdecided held n).2 (.inr rfl)).1

end Engine

end TwoWire
