import TwoWire.Proofs.Sim.Delivery

/-!
# Waiting on the simulated controller

Time passes on a simulated controller with the status readings: each counts down one of its two
counters (`Timing.elapse`). `Controller.Elapsed n` says that there were `n` readings, and nothing
else but bytes taken out of the receive FIFO. A word queued sets the counter of the transmit FIFO,
and STOP sets that of the bus too (`Timing.restart`).

`Controller.due` tells after how many readings a flag shows, if it ever does; so the engine's waits
are exact (`ensures_await_due`): a wait that is met makes one reading more than that, and a wait
runs out only if its policy allows fewer.
-/

namespace TwoWire

/-- As many polls after the first are allowed. -/
def WaitPolicy.Allows (policy : WaitPolicy) (polls : Nat) : Prop :=
  ∀ limit, policy.maxPolls = some limit → polls ≤ limit

theorem WaitPolicy.allows_iff {policy : WaitPolicy} {limit polls : Nat}
    (h : policy.maxPolls = some limit) : policy.Allows polls ↔ polls ≤ limit := by
  refine ⟨fun hallows => hallows limit h, fun hle other hother => ?_⟩
  obtain rfl : limit = other := Option.some.inj (h.symm.trans hother)
  exact hle

namespace Sim

open Event

/-! ## Readings -/

/-- What the passing of time depends on and changes. -/
structure Timing where
  txLatency : Nat
  stopLatency : Nat
  stuckBusy : Bool
  txPending : Nat
  busyHold : Nat

namespace Timing

/-- After some readings. The bus is not counted down before the transmit FIFO has emptied. -/
def elapse (t : Timing) (readings : Nat) : Timing :=
  { t with txPending := t.txPending - readings, busyHold := t.busyHold - (readings - t.txPending) }

theorem elapse_zero (t : Timing) : t.elapse 0 = t := by
  rw [elapse, Nat.zero_sub, Nat.sub_zero, Nat.sub_zero]

theorem elapse_elapse (t : Timing) (m n : Nat) : (t.elapse m).elapse n = t.elapse (m + n) := by
  have hpending : t.txPending - m - n = t.txPending - (m + n) := Nat.sub_sub _ _ _
  have hhold : t.busyHold - (m - t.txPending) - (n - (t.txPending - m))
      = t.busyHold - (m + n - t.txPending) := by
    omega
  simp only [elapse, hpending, hhold]

/-- After a word was queued; STOP starts the second counter. -/
def restart (t : Timing) (stop : Bool) : Timing :=
  { t with txPending := t.txLatency, busyHold := if stop then t.stopLatency else t.busyHold }

/-- From the reading on that finds the words gone, each reading counts the bus down. -/
theorem elapse_past (t : Timing) (n : Nat) :
    (t.restart true).elapse (t.txLatency + 1 + n)
      = { t with txPending := 0, busyHold := t.stopLatency - (n + 1) } := by
  have hsent : t.txLatency - (t.txLatency + 1 + n) = 0 := by omega
  have hmore : t.txLatency + 1 + n - t.txLatency = n + 1 := by omega
  simp only [restart, elapse, ↓reduceIte, hsent, hmore]

end Timing

namespace Controller

open RegisterBlock (Replays)

variable {c next after : Controller}

def timing (c : Controller) : Timing :=
  ⟨c.txLatency, c.stopLatency, c.stuckBusy, c.txPending, c.busyHold⟩

/-- Some status readings were made, and bytes may have been taken out of the receive FIFO. -/
structure Elapsed (readings : Nat) (before after : Controller) : Prop where
  quiet : Quiet before after
  timing : after.timing = before.timing.elapse readings

theorem Elapsed.refl (c : Controller) : Elapsed 0 c c :=
  ⟨.refl c, c.timing.elapse_zero.symm⟩

theorem Elapsed.trans {m n : Nat} (h : Elapsed m c next) (h' : Elapsed n next after) :
    Elapsed (m + n) c after :=
  ⟨h.quiet.trans h'.quiet, by rw [h'.timing, h.timing, Timing.elapse_elapse]⟩

theorem elapsed_polled (c : Controller) : Elapsed 1 c c.polled := by
  refine ⟨(quiet_polled c).1, ?_⟩
  by_cases hpending : 0 < c.txPending
  · have hhold : c.busyHold - (1 - c.txPending) = c.busyHold := by omega
    have htick : c.tick = { c with txPending := c.txPending - 1 } := if_pos hpending
    simp only [polled, htick, note, timing, Timing.elapse, hhold]
  · have hhold : c.busyHold - (1 - c.txPending) = c.busyHold - 1 := by omega
    have hzero : c.txPending - 1 = c.txPending := by omega
    have htick : c.tick = { c with busyHold := c.busyHold - 1 } := if_neg hpending
    simp only [polled, htick, note, timing, Timing.elapse, hhold, hzero]

/-- An access to the receive FIFO takes no time. -/
theorem elapsed_note (c : Controller) (rx : Fifo UInt8) (access : Access) :
    Elapsed 0 c ({ c with rx }.note access) :=
  ⟨⟨rfl, rfl, rfl, rfl, rfl, Nat.le_refl _, Nat.le_refl _⟩, c.timing.elapse_zero.symm⟩

/-! ## Words -/

theorem timing_taken {word : TxWord} (h : Taken c word next) :
    next.timing = c.timing.restart false := by
  cases h with
  | openRead | openWrite | byte | count => rfl

theorem timing_endTransaction (c : Controller) :
    c.endTransaction.timing = { c.timing with busyHold := c.stopLatency } := by
  obtain ⟨ended, hstop, -⟩ := endTransaction_eq c
  rw [hstop]
  rfl

/-- A word starts the first counter, and with STOP the second one. -/
theorem timing_accept {word : TxWord} (hok : c.accept word = .ok next) :
    next.timing = c.timing.restart word.isStop := by
  obtain ⟨taken, htaken, ⟨hstop, rfl⟩ | ⟨hstop, rfl⟩⟩ := accept_cases hok
  · rw [hstop]
    exact timing_taken htaken
  · have hrestarted := timing_taken htaken
    have hlatency : taken.stopLatency = c.stopLatency := congrArg Timing.stopLatency hrestarted
    rw [timing_endTransaction, hrestarted, hlatency, hstop]
    rfl

/-- Words queued one after another start the counters like one word does. -/
theorem timing_of_replays {words : List TxWord} (hne : words ≠ [])
    (hr : Replays c (words.map queue) after) :
    after.timing = c.timing.restart (words.any TxWord.isStop) := by
  induction words generalizing c with
  | nil => exact absurd rfl hne
  | cons word rest ih =>
    obtain ⟨next, haccept, hrest⟩ := replays_queue hr
    have hfirst := timing_accept haccept
    by_cases hnil : rest = []
    · subst hnil
      obtain rfl : after = next := hrest
      simpa using hfirst
    · rw [ih hnil hrest, hfirst, List.any_cons]
      cases word.isStop <;> cases rest.any TxWord.isStop <;> rfl

/-! ## When a flag shows -/

/-- The number of readings before the one that shows a flag; `none` if no reading ever will. -/
def due (c : Controller) : Flag → Option Nat
  | .txEmpty => some c.txPending
  | .busIdle =>
    if c.stuckBusy || c.inTransaction then none
    else if c.busyHold = 0 then some 0
    else some (c.txPending + c.busyHold)
  | .rxData => if c.rx.isEmpty then none else some 0

/-- **A flag shows from the reading on that it is due at.** -/
theorem holds_currentStatus_iff {readings : Nat} (h : Elapsed readings c after)
    (hrx : after.rx = c.rx) (flag : Flag) :
    flag.holds after.currentStatus = true ↔ ∃ d, c.due flag = some d ∧ d ≤ readings := by
  have hpending : after.txPending = c.txPending - readings := congrArg Timing.txPending h.timing
  have hhold : after.busyHold = c.busyHold - (readings - c.txPending) :=
    congrArg Timing.busyHold h.timing
  cases flag with
  | txEmpty =>
    have hshows : Flag.txEmpty.holds after.currentStatus = true ↔ after.txPending = 0 := by
      simp [Flag.holds, currentStatus]
    rw [hshows]
    constructor
    · intro hzero
      exact ⟨c.txPending, rfl, by omega⟩
    · rintro ⟨d, hd, hle⟩
      obtain rfl : c.txPending = d := Option.some.inj hd
      omega
  | busIdle =>
    have hshows : Flag.busIdle.holds after.currentStatus = true
        ↔ (c.stuckBusy || c.inTransaction) = false ∧ after.busyHold = 0 := by
      rw [← h.quiet.stuckBusy, ← h.quiet.inTransaction]
      simp [Flag.holds, currentStatus, busy]
    rw [hshows]
    cases hheld : c.stuckBusy || c.inTransaction with
    | true => simp [due, hheld]
    | false =>
      by_cases hzero : c.busyHold = 0
      · simp only [due, hheld, hzero]
        refine ⟨fun _ => ⟨0, by simp, Nat.zero_le _⟩, fun _ => ⟨trivial, by omega⟩⟩
      · simp only [due, hheld, hzero]
        constructor
        · rintro ⟨-, hfree⟩
          exact ⟨c.txPending + c.busyHold, by simp, by omega⟩
        · rintro ⟨d, hd, hle⟩
          obtain rfl : c.txPending + c.busyHold = d := by simpa using hd
          exact ⟨trivial, by omega⟩
  | rxData =>
    have hshows : Flag.rxData.holds after.currentStatus = true ↔ c.rx.isEmpty = false := by
      simp [Flag.holds, currentStatus, hrx]
    rw [hshows]
    cases hempty : c.rx.isEmpty with
    | true => simp [due, hempty]
    | false =>
      refine ⟨fun _ => ⟨0, by simp [due, hempty], Nat.zero_le _⟩, fun _ => rfl⟩

/-- Once the words have gone out, the bus becomes free as its counter says. -/
theorem due_busIdle (hstuck : c.stuckBusy = false) (hidle : c.inTransaction = false)
    (hsent : c.txPending = 0) : c.due .busIdle = some c.busyHold := by
  unfold due
  rw [hstuck, hidle, hsent, Nat.zero_add]
  by_cases hfree : c.busyHold = 0
  · rw [hfree]
    rfl
  · exact (if_neg Bool.false_ne_true).trans (if_neg hfree)

/-- A byte that is there shows at the next reading. -/
theorem due_rxData (hbytes : 0 < c.rx.toList.length) : c.due .rxData = some 0 := by
  have hfull : c.rx.isEmpty = false := by
    rw [← Bool.not_eq_true, Fifo.isEmpty_iff]
    exact List.ne_nil_of_length_pos hbytes
  simp [due, hfull]

theorem due_busIdle_of_timing {t : Timing} {n : Nat}
    (htiming : c.timing = (t.restart true).elapse (t.txLatency + 1 + n))
    (hstuck : t.stuckBusy = false) (hidle : c.inTransaction = false) :
    c.due .busIdle = some (t.stopLatency - (n + 1)) := by
  rw [t.elapse_past] at htiming
  have hfree : c.busyHold = t.stopLatency - (n + 1) := congrArg Timing.busyHold htiming
  rw [due_busIdle ((congrArg Timing.stuckBusy htiming).trans hstuck) hidle
    (congrArg Timing.txPending htiming), hfree]

end Controller

end Sim

/-! ## The engine's waits -/

namespace Engine

open Event
open Log (Logger)
open Sim (Controller)
open Sim.Controller (Elapsed elapsed_polled elapsed_note holds_currentStatus_iff)

variable {κ : Type} (engine : Engine Controller κ)

/-- Between two states of an engine its controller was read some times. -/
structure Passed (readings : Nat) (before after : Engine Controller κ) : Prop where
  config : after.config = before.config
  elapsed : Elapsed readings before.registers after.registers

theorem Passed.trans {m n : Nat} {before mid after : Engine Controller κ}
    (h : Passed m before mid) (h' : Passed n mid after) : Passed (m + n) before after :=
  ⟨h'.config.trans h.config, h.elapsed.trans h'.elapsed⟩

theorem ensures_status_passed :
    (status : Proc (Engine Controller κ) Status).Ensures engine fun _ s engine' =>
      s = engine.registers.currentStatus ∧ Passed 1 engine engine'
        ∧ engine'.registers.rx = engine.registers.rx := by
  refine Proc.Ensures.bind (Proc.Ensures.zoom ?_)
  refine (RegisterBlock.ensures_load .byte Offset.status engine.registers).mono ?_
  rintro _ bits after ⟨-, hread⟩
  have hpolled : (engine.registers.currentStatus.bits, engine.registers.polled) = (bits, after) :=
    Except.ok.inj hread
  obtain ⟨rfl, rfl⟩ := Prod.mk.inj hpolled
  exact Proc.ensures_pure ⟨rfl, ⟨rfl, elapsed_polled engine.registers⟩,
    (Sim.Controller.quiet_polled engine.registers).2⟩

theorem ensures_popByte_passed :
    (popByte : Proc (Engine Controller κ) UInt8).Ensures engine fun _ _ engine' =>
      Passed 0 engine engine'
        ∧ engine'.registers.rx.toList = engine.registers.rx.toList.tail := by
  unfold popByte onRegisters
  refine Proc.Ensures.zoom ?_
  refine (RegisterBlock.ensures_load .byte Offset.rxFifo engine.registers).mono ?_
  rintro _ value after ⟨-, hread⟩
  rw [Sim.Controller.read_rxFifo] at hread
  cases hlist : engine.registers.rx.toList with
  | nil =>
    rw [Sim.Fifo.pop?_of_toList_nil hlist] at hread
    obtain ⟨-, rfl⟩ := Prod.mk.inj (Except.ok.inj hread)
    exact ⟨⟨rfl, elapsed_note _ engine.registers.rx _⟩, hlist⟩
  | cons first more =>
    obtain ⟨rx, hpop, hmore⟩ := Sim.Fifo.pop?_of_toList_cons hlist
    rw [hpop] at hread
    obtain ⟨-, rfl⟩ := Prod.mk.inj (Except.ok.inj hread)
    exact ⟨⟨rfl, elapsed_note _ rx _⟩, hmore⟩

variable [Logger κ]

theorem ensures_log_passed (level : Log.Level) (pieces : List String) :
    (log level pieces : Proc (Engine Controller κ) Unit).Ensures engine fun _ _ engine' =>
      Passed 0 engine engine' ∧ engine'.registers.rx = engine.registers.rx := by
  refine Proc.Ensures.zoom fun n _ _ => ?_
  exact ⟨⟨rfl, .refl engine.registers⟩, rfl⟩

theorem ensures_timedOut_passed (condition : Condition) :
    (timedOut condition : Proc (Engine Controller κ) _).Ensures engine fun _ result engine' =>
      result = .error (.timeout condition) ∧ Passed 1 engine engine'
        ∧ engine'.registers.rx = engine.registers.rx := by
  refine Proc.Ensures.bind ((ensures_status_passed engine).mono ?_)
  rintro _ s mid ⟨-, hread, hrx⟩
  refine Proc.Ensures.bind ((ensures_log_passed mid _ _).mono ?_)
  rintro _ _ last ⟨hlogged, hrx'⟩
  exact Proc.ensures_pure ⟨rfl, hread.trans hlogged, hrx'.trans hrx⟩

/-- What a wait on the simulated controller comes to. -/
def WaitedFor (flag : Flag) (before after : Engine Controller κ) :
    Except TransferError Unit → Prop
  | .ok () => ∃ d, before.registers.due flag = some d ∧ before.config.wait.Allows d
    ∧ Passed (d + 1) before after
  | .error error => error = .timeout flag.condition
    ∧ (∀ d, before.registers.due flag = some d → ¬before.config.wait.Allows d)
    ∧ ∃ readings, Passed readings before after

/-- **A wait is met at the reading that its flag is due at, unless the policy runs out before.** -/
theorem ensures_await_due (flag : Flag) :
    (await flag : Proc (Engine Controller κ) _).Ensures engine fun _ result engine' =>
      WaitedFor flag engine engine' result
        ∧ engine'.registers.rx = engine.registers.rx := by
  refine Proc.Ensures.bind (Proc.ensures_get (Proc.Ensures.bind ?_))
  -- after `i` failed polls there were `i` readings, and the flag is not due before the next one
  let failed (i : Nat) (mid : Engine Controller κ) : Prop :=
    Passed i engine mid ∧ mid.registers.rx = engine.registers.rx
      ∧ ∀ d, engine.registers.due flag = some d → i ≤ d
  have hpoll : ∀ i (mid : Engine Controller κ) (before : List Event), failed i mid →
      (∀ count, engine.config.wait.maxPolls = some count → i ≤ count) →
      (do return .ok (flag.holds (← status)) :
        Proc (Engine Controller κ) (Except Empty Bool)).Ensures mid fun ev =>
        PollStep (fun _ last => failed (i + 1) last)
          (fun _ settled last =>
            settled = .ok true ∧ (∃ d, engine.registers.due flag = some d
                ∧ engine.config.wait.Allows d ∧ Passed (d + 1) engine last)
              ∧ last.registers.rx = engine.registers.rx
            ∨ settled = .ok false ∧ ∃ count, engine.config.wait.maxPolls = some count
              ∧ failed (count + 1) last)
          (before ++ ev) := by
    rintro i mid before ⟨hpassed, hrx, hdue⟩ hcount
    refine Proc.Ensures.bind ((ensures_status_passed mid).mono ?_)
    rintro ev s last ⟨rfl, hread, hrx'⟩
    have hshows := holds_currentStatus_iff hpassed.elapsed hrx flag
    refine Proc.ensures_pure ?_
    cases hholds : flag.holds mid.registers.currentStatus with
    | true =>
      obtain ⟨d, hd, hle⟩ := hshows.mp hholds
      obtain rfl : d = i := Nat.le_antisymm hle (hdue d hd)
      exact Or.inl ⟨rfl, ⟨d, hd, hcount, hpassed.trans hread⟩, hrx'.trans hrx⟩
    | false =>
      refine ⟨hpassed.trans hread, hrx'.trans hrx, fun d hd => ?_⟩
      refine Nat.lt_of_not_le fun hle => ?_
      rw [hshows.mpr ⟨d, hd, hle⟩] at hholds
      cases hholds
  have hstart : failed 0 engine :=
    ⟨⟨rfl, .refl engine.registers⟩, rfl, fun _ _ => Nat.zero_le _⟩
  refine (ensures_pollUntil_counted (fun i _ mid => failed i mid)
    (hpoll 0 engine [] hstart fun _ _ => Nat.zero_le _)
    (fun i before mid hle h => hpoll i mid _ h hle)
    fun count before mid hpolicy h => Or.inr ⟨rfl, count, hpolicy, h⟩).mono
    fun ev settled mid h => ?_
  rcases h with ⟨rfl, hmet⟩ | ⟨rfl, count, hpolicy, hpassed, hrx, hdue⟩
  · exact Proc.ensures_pure hmet
  · refine (ensures_timedOut_passed mid flag.condition).mono ?_
    rintro _ _ last ⟨rfl, hread, hrx'⟩
    refine ⟨⟨rfl, fun d hd hallows => ?_, _, hpassed.trans hread⟩, hrx'.trans hrx⟩
    have hlow := hdue d hd
    have hhigh := hallows count hpolicy
    omega

/-- A wait for a flag that will show is decided by the policy alone. -/
theorem ensures_await_of_due {flag : Flag} {d : Nat} (hdue : engine.registers.due flag = some d) :
    (await flag : Proc (Engine Controller κ) _).Ensures engine fun _ result engine' =>
      engine'.registers.rx = engine.registers.rx ∧ match result with
        | .ok () => engine.config.wait.Allows d ∧ Passed (d + 1) engine engine'
        | .error error => error = .timeout flag.condition ∧ ¬engine.config.wait.Allows d
          ∧ ∃ readings, Passed readings engine engine' := by
  refine (ensures_await_due engine flag).mono fun _ result last hwaited => ?_
  obtain ⟨hwait, hrx⟩ := hwaited
  refine ⟨hrx, ?_⟩
  match result with
  | .error error =>
    obtain ⟨hcause, hlate, hpassed⟩ := hwait
    exact ⟨hcause, hlate d hdue, hpassed⟩
  | .ok () =>
    obtain ⟨shown, hshown, hallows, hpassed⟩ := hwait
    obtain rfl : d = shown := Option.some.inj (hdue.symm.trans hshown)
    exact ⟨hallows, hpassed⟩

/-- A flag that shows at once is waited for with one reading. -/
theorem ensures_await_ready {flag : Flag} (hdue : engine.registers.due flag = some 0) :
    (await flag : Proc (Engine Controller κ) _).Ensures engine fun _ result engine' =>
      result = .ok () ∧ Passed 1 engine engine'
        ∧ engine'.registers.rx = engine.registers.rx := by
  refine (ensures_await_of_due engine hdue).mono fun _ result last hwaited => ?_
  obtain ⟨hrx, hwait⟩ := hwaited
  match result with
  | .error error =>
    obtain ⟨-, hlate, -⟩ := hwait
    exact absurd (fun _ _ => Nat.zero_le _) hlate
  | .ok () => exact ⟨rfl, hwait.2, hrx⟩

end Engine

end TwoWire
