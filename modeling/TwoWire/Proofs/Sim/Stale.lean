import TwoWire.Proofs.Reception
import TwoWire.Proofs.Timeouts
import TwoWire.Proofs.Sim.Termination

/-!
# Stale bytes

What an earlier transfer has left in the receive FIFO is taken out before the first START. A poll of
the drain takes out as many bytes as a FIFO holds, and only one that takes out fewer finds the FIFO
empty. So the poll that takes the last byte out may still be a miss, and then there is one more to
come: `r` bytes need the polls that they fill and one after those (`Emptied`).

Over a controller that nothing else keeps busy, this decides how a transfer is opened
(`Engine.stale_bytes_drained_exactly`).
-/

namespace TwoWire

open Event

namespace Sim.Controller

open RegisterBlock (Replays)

variable {c after : Controller} {trace : List Event}

/-- **Bytes that are discarded are the first ones in the receive FIFO**, and the others are left. -/
theorem toList_of_discarded (h : Discarded trace) (hr : Replays c trace after) :
    c.rx.toList = taken trace ++ after.rx.toList := by
  obtain ⟨pairs, hpairs, rfl⟩ := h
  induction pairs generalizing c with
  | nil =>
    obtain rfl : after = c := hr
    rfl
  | cons pair rest ih =>
    obtain ⟨hfull, hothers⟩ := List.forall_mem_cons.mp hpairs
    obtain ⟨hs, hpop⟩ := replays_readStatus hr
    obtain ⟨popped, -, hrest, hfirst⟩ := replays_takeByte hpop
    cases hlist : c.rx.toList with
    | nil =>
      rw [hs, rxEmpty_currentStatus.mpr hlist] at hfull
      cases hfull
    | cons first more =>
      obtain ⟨hbyte, hmore⟩ := hfirst first more (by rw [(quiet_polled c).2, hlist])
      rw [← hmore, ih hothers hrest, ← hbyte]
      simp

end Sim.Controller

/-! ## Draining -/

/--
Some events take bytes out, with a number of pauses of the policy, and record how many bytes it was,
if it was any.
-/
structure Flushed (policy : WaitPolicy) (pauses : Nat) (bytes : List UInt8) (ev : List Event) :
    Prop where
  taken : taken ev = bytes
  sleeps : sleeps .engine ev
    = (List.replicate pauses (sleeps .engine (pauseEvents .engine policy))).flatten
  records : records .debug ev = records .debug (Engine.discardRecord bytes.length)

/--
What draining comes to that finds `stale` in the receive FIFO and leaves `left` there: the polls that
the stale bytes fill and one more, if the policy allows that, and else those that it allows.
-/
def Emptied (policy : WaitPolicy) (stale left : List UInt8) (ev : List Event) :
    Except TransferError Unit → Prop
  | .ok () => policy.Allows (stale.length / rxFifoDepth) ∧ left = []
    ∧ Flushed policy (stale.length / rxFifoDepth) stale ev
  | .error error => error = .timeout .rxDrained ∧ ∃ count, policy.maxPolls = some count
    ∧ rxFifoDepth * (count + 1) ≤ stale.length
    ∧ left = stale.drop (rxFifoDepth * (count + 1))
    ∧ Flushed policy count (stale.take (rxFifoDepth * (count + 1))) ev

section Emptied

variable {policy : WaitPolicy} {stale left : List UInt8} {ev : List Event}
  {result : Except TransferError Unit}

/-- A reading before a drain takes nothing out. -/
theorem Emptied.readStatus (h : Emptied policy stale left ev result) (s : Status) :
    Emptied policy stale left (readStatus s :: ev) result := by
  match result with
  | .ok () =>
    obtain ⟨hallows, hleft, hflushed⟩ := h
    exact ⟨hallows, hleft, hflushed.taken, hflushed.sleeps, hflushed.records⟩
  | .error _ =>
    obtain ⟨hcause, count, hpolicy, hle, hleft, hflushed⟩ := h
    exact ⟨hcause, count, hpolicy, hle, hleft, hflushed.taken, hflushed.sleeps, hflushed.records⟩

/--
Under a policy that allows `k` polls after the first, a drain is met exactly if the stale bytes are
fewer than fill `k + 1` polls. A poll that takes the last byte out but is filled by it does not find
the FIFO empty.
-/
theorem Emptied.bounded {k : Nat} (h : Emptied policy stale left ev result)
    (hpolls : policy.maxPolls = some k) :
    let count := min stale.length (rxFifoDepth * (k + 1))
    result = (if stale.length < rxFifoDepth * (k + 1) then .ok () else .error (.timeout .rxDrained))
      ∧ left = stale.drop count
      ∧ Flushed policy (min (stale.length / rxFifoDepth) k) (stale.take count) ev := by
  have hdepth : 0 < rxFifoDepth := by decide
  intro count
  match result with
  | .ok () =>
    obtain ⟨hallows, rfl, hflushed⟩ := h
    have hle : stale.length / rxFifoDepth ≤ k := (WaitPolicy.allows_iff hpolls).mp hallows
    have hlt : stale.length < rxFifoDepth * (k + 1) := by
      rw [Nat.mul_comm]
      exact (Nat.div_lt_iff_lt_mul hdepth).mp (Nat.lt_succ_of_le hle)
    have hcount : count = stale.length := Nat.min_eq_left (Nat.le_of_lt hlt)
    rw [hcount, Nat.min_eq_left hle, List.take_length, List.drop_length]
    exact ⟨(if_pos hlt).symm, rfl, hflushed⟩
  | .error _ =>
    obtain ⟨rfl, allowed, hallowed, hge, hleft, hflushed⟩ := h
    obtain rfl : k = allowed := Option.some.inj (hpolls.symm.trans hallowed)
    have hle : k ≤ stale.length / rxFifoDepth := by
      refine (Nat.le_div_iff_mul_le hdepth).mpr (Nat.le_trans ?_ hge)
      rw [Nat.mul_comm]
      exact Nat.mul_le_mul_left _ (Nat.le_succ k)
    have hcount : count = rxFifoDepth * (k + 1) := Nat.min_eq_right hge
    rw [hcount, Nat.min_eq_right hle]
    exact ⟨(if_neg (Nat.not_lt.mpr hge)).symm, hleft, hflushed⟩

/-- Without a bound, a drain is always met. -/
theorem Emptied.unbounded (h : Emptied policy stale left ev result)
    (hpolls : policy.maxPolls = none) : result = .ok () ∧ left = []
      ∧ Flushed policy (stale.length / rxFifoDepth) stale ev := by
  match result with
  | .ok () => exact ⟨rfl, h.2⟩
  | .error _ =>
    obtain ⟨-, allowed, hallowed, -⟩ := h
    rw [hpolls] at hallowed
    cases hallowed

/-- Each missed poll of a drain takes out as many bytes as a FIFO holds. -/
theorem Move.length_taken_missed {missed : List (List Event)}
    (h : ∀ poll ∈ missed, drain.Missed poll) :
    (taken missed.flatten).length = rxFifoDepth * missed.length := by
  have hlength := (discarded_flatten h).length_eq
  rw [length_flatten_missed h, pollLength, Nat.mul_assoc] at hlength
  exact (Nat.eq_of_mul_eq_mul_left (by decide) hlength).symm

section Polls

open RegisterBlock (Replays replays_append)
open Sim (Controller)
open Sim.Controller

variable {c after : Controller} {polls : List (List Event)}

/-- A drain that is met takes all stale bytes out, with one poll more than they fill. -/
theorem Move.Meets.empties (h : drain.Meets policy polls) (hr : Replays c polls.flatten after) :
    policy.Allows (c.rx.toList.length / rxFifoDepth)
      ∧ polls.length = c.rx.toList.length / rxFifoDepth + 1
      ∧ taken polls.flatten = c.rx.toList ∧ after.rx.toList = [] := by
  obtain ⟨missed, last, rfl, hmissed, ⟨discarded, s, hdiscarded, hlt, hs, rfl⟩, hallows⟩ := h
  have hflat : (missed ++ [discarded ++ [readStatus s]]).flatten
      = (missed.flatten ++ discarded) ++ [readStatus s] := by simp
  rw [hflat] at hr ⊢
  obtain ⟨mid, hpopped, hread⟩ := replays_append.mp hr
  obtain ⟨rfl, hend⟩ := replays_readStatus hread
  obtain rfl : after = mid.polled := hend
  have hnone : mid.rx.toList = [] := rxEmpty_currentStatus.mp hs
  have hstale := toList_of_discarded ((Move.discarded_flatten hmissed).append hdiscarded) hpopped
  rw [hnone, List.append_nil] at hstale
  have hcount : c.rx.toList.length / rxFifoDepth = missed.length := by
    rw [hstale, taken_append, List.length_append, Move.length_taken_missed hmissed,
      Nat.mul_add_div (by decide), Nat.div_eq_of_lt hlt, Nat.add_zero]
  refine ⟨?_, ?_, ?_, ?_⟩
  · rw [hcount]
    exact hallows
  · rw [hcount, List.length_append, List.length_singleton]
  · rw [hstale, taken_append]
    exact List.append_nil _
  · rw [(quiet_polled mid).2, hnone]

/-- A drain that runs out takes out as many stale bytes as its polls can hold. -/
theorem Move.RunsOut.takes (h : drain.RunsOut policy polls) {s : Status}
    (hr : Replays c (polls.flatten ++ [readStatus s]) after) :
    ∃ count, policy.maxPolls = some count ∧ polls.length = count + 1
      ∧ rxFifoDepth * (count + 1) ≤ c.rx.toList.length
      ∧ taken polls.flatten = c.rx.toList.take (rxFifoDepth * (count + 1))
      ∧ after.rx.toList = c.rx.toList.drop (rxFifoDepth * (count + 1)) := by
  obtain ⟨hmissed, count, hpolicy, hlength⟩ := h
  obtain ⟨mid, hpopped, hread⟩ := replays_append.mp hr
  obtain ⟨-, hend⟩ := replays_readStatus hread
  obtain rfl : after = mid.polled := hend
  have hstale := toList_of_discarded (Move.discarded_flatten hmissed) hpopped
  have htaken := Move.length_taken_missed hmissed
  rw [hlength] at htaken
  refine ⟨count, hpolicy, hlength, ?_, ?_, ?_⟩
  · rw [hstale, List.length_append, htaken]
    exact Nat.le_add_right _ _
  · rw [hstale, ← htaken, List.take_left]
  · rw [(quiet_polled mid).2, hstale, ← htaken, List.drop_left]

/-- A flag that shows is not missed at any poll. -/
theorem Move.eq_nil_of_shown {flag : Flag} (hholds : flag.holds c.currentStatus = true)
    {missed : List (List Event)} (hmissed : ∀ poll ∈ missed, (await flag).Missed poll)
    {rest : List Event} (hr : Replays c (missed.flatten ++ rest) after) : missed = [] := by
  cases missed with
  | nil => rfl
  | cons poll others =>
    obtain ⟨⟨s, hs, rfl⟩, -⟩ := List.forall_mem_cons.mp hmissed
    obtain ⟨rfl, -⟩ := replays_readStatus hr
    rw [hholds] at hs
    cases hs

namespace Engine

open RegisterBlock (replays_accesses)

@[simp] theorem sleeps_discardRecord (count : Nat) : sleeps .engine (discardRecord count) = [] := by
  unfold discardRecord
  split <;> rfl

/-- The polls of a drain and its record, as events that take bytes out. -/
theorem flushed_polls (h : ∀ poll ∈ polls, accesses poll = poll) :
    Flushed policy (polls.length - 1) (taken polls.flatten)
      ((pauseEvents .engine policy).intercalate polls
        ++ discardRecord (taken polls.flatten).length) where
  taken := by rw [← taken_accesses, accesses_waited h]
  sleeps := by rw [sleeps_append, sleeps_polls h, sleeps_discardRecord, List.append_nil]
  records := by rw [records_append, records_polls h, List.nil_append]

/-- **A drain of a simulated controller empties it of its stale bytes**, as far as polls go. -/
theorem emptied_of_waited (h : Waited policy .drain ev result) (hr : Replays c ev after) :
    Emptied policy c.rx.toList after.rx.toList ev result := by
  match result with
  | .ok () =>
    obtain ⟨polls, hmeets, rfl⟩ := h
    rw [← replays_accesses, accesses_waited hmeets.accesses] at hr
    obtain ⟨hallows, hlength, htaken, hleft⟩ := hmeets.empties hr
    have hflushed : Flushed policy _ _ _ := flushed_polls hmeets.accesses
    rw [hlength, Nat.add_sub_cancel, htaken] at hflushed
    rw [htaken]
    exact ⟨hallows, hleft, hflushed⟩
  | .error _ =>
    obtain ⟨condition, polls, s, hcondition, rfl, hout, rfl⟩ := h
    obtain rfl : Condition.rxDrained = condition := Option.some.inj hcondition
    rw [← replays_accesses, accesses_waited_timedOut hout.accesses] at hr
    obtain ⟨count, hpolicy, hlength, hle, htaken, hleft⟩ := hout.takes hr
    have hflushed : Flushed policy _ _ _ := flushed_polls hout.accesses
    rw [hlength, Nat.add_sub_cancel, htaken] at hflushed
    refine ⟨rfl, count, hpolicy, hle, hleft, ?_⟩
    -- the reading and the record of the timeout take nothing out, and do not sleep
    rw [htaken]
    refine ⟨?_, ?_, ?_⟩
    · rw [taken_append, hflushed.taken]
      exact List.append_nil _
    · rw [sleeps_append, hflushed.sleeps]
      exact List.append_nil _
    · rw [records_append, hflushed.records]
      exact List.append_nil _

/-- A wait whose flag shows at once is one reading. -/
theorem waited_ready {flag : Flag} (hholds : flag.holds c.currentStatus = true)
    (h : Waited policy (.await flag) ev result) (hr : Replays c ev after) :
    result = .ok () ∧ (∃ s, ev = [readStatus s]) ∧ after = c.polled := by
  match result with
  | .ok () =>
    obtain ⟨polls, hmeets, rfl⟩ := h
    have htrace := hr
    rw [← replays_accesses, accesses_waited hmeets.accesses] at htrace
    obtain ⟨missed, last, rfl, hmissed, ⟨s, -, rfl⟩, -⟩ := hmeets
    rw [List.flatten_append] at htrace
    obtain rfl := Move.eq_nil_of_shown hholds hmissed htrace
    have hev : (pauseEvents .engine policy).intercalate ([] ++ [[readStatus s]])
        ++ discardRecord (taken ([] ++ [[readStatus s]]).flatten).length = [readStatus s] := by
      simp [discardRecord]
    rw [hev] at hr ⊢
    exact ⟨rfl, ⟨s, rfl⟩, (replays_readStatus hr).2⟩
  | .error _ =>
    obtain ⟨condition, polls, s, -, -, hout, rfl⟩ := h
    rw [← replays_accesses, accesses_waited_timedOut hout.accesses] at hr
    obtain ⟨hmissed, count, -, hlength⟩ := hout
    obtain rfl := Move.eq_nil_of_shown hholds hmissed hr
    cases hlength

end Engine

end Polls

end Emptied

/-! ## Opening a transfer -/

namespace Engine

open Log (Logger)
open RegisterBlock (Replays)
open Sim (Controller)

variable {κ : Type} [Logger κ] (engine : Engine Controller κ)

theorem ensures_performed_replays (move : Move) :
    (perform move : Proc (Engine Controller κ) _).Ensures engine fun ev reply engine' =>
      (Performed engine.config.wait move reply.received ev reply.result
        ∧ engine'.config = engine.config)
      ∧ Replays engine.registers ev engine'.registers :=
  (ensures_performed_same engine move).and ((always_perform_of leaves_replays.toWaits
    fun word _ => leaves_replays.pushWord word).ensures engine)

/-- **Over a controller that only stale bytes are left in, a transfer is opened by draining them.** -/
theorem ensures_opening_emptied
    (hquiescent : ({ engine.registers with rx := .empty } : Controller).Quiescent) :
    (performAll Move.opening).Ensures engine fun ev reply engine' =>
      reply.received = [] ∧ Emptied engine.config.wait engine.registers.rx.toList
        engine'.registers.rx.toList ev reply.result := by
  have hfree : Flag.busIdle.holds engine.registers.currentStatus = true := by
    have hhold : engine.registers.busyHold = 0 := hquiescent.busyHold
    have hstuck : engine.registers.stuckBusy = false := hquiescent.stuckBusy
    have hidle : engine.registers.inTransaction = false := hquiescent.inTransaction
    simp [Flag.holds, Controller.currentStatus, Controller.busy, hhold, hstuck, hidle]
  refine ensures_performAll_cons engine ((ensures_performed_replays engine _).mono ?_)
  rintro _ ⟨result, received⟩ idle ⟨⟨⟨rfl, hidle⟩, hsame⟩, hr⟩
  obtain ⟨rfl, ⟨s, rfl⟩, hpolled⟩ := waited_ready hfree hidle hr
  obtain ⟨hquiet, hrx⟩ := Controller.quiet_polled engine.registers
  have hsent : Flag.txEmpty.holds idle.registers.currentStatus = true := by
    have hpending : idle.registers.txPending = 0 := by
      have hle := hquiet.txPending
      rw [← hpolled] at hle
      exact Nat.le_zero.mp (Nat.le_trans hle (Nat.le_of_eq hquiescent.txPending))
    simp [Flag.holds, Controller.currentStatus, hpending]
  refine ensures_performAll_cons idle ((ensures_performed_replays idle _).mono ?_)
  rintro _ ⟨result, received⟩ sent ⟨⟨⟨rfl, hwaited⟩, hsame'⟩, hr'⟩
  obtain ⟨rfl, ⟨t, rfl⟩, hpolled'⟩ := waited_ready hsent hwaited hr'
  have hstale : sent.registers.rx.toList = engine.registers.rx.toList := by
    rw [hpolled', (Controller.quiet_polled _).2, hpolled, hrx]
  refine ensures_performAll_cons sent ((ensures_performed_replays sent _).mono ?_)
  rintro ev ⟨result, received⟩ last ⟨⟨⟨rfl, hdrained⟩, -⟩, hr''⟩
  have hemptied := emptied_of_waited hdrained hr''
  rw [hstale, hsame', hsame] at hemptied
  have hall := (hemptied.readStatus t).readStatus s
  rcases result with error | _
  · exact ⟨rfl, hall⟩
  · refine Proc.ensures_pure ⟨rfl, ?_⟩
    rw [List.append_nil]
    exact hall

/-! ## What comes after the opening -/

section Debug

variable {β : Type}

/-- Only a drain makes records at this level. -/
theorem Performed.records_debug {policy : WaitPolicy} {move : Move} {received : List UInt8}
    {ev : List Event} {result : Except TransferError Unit}
    (h : Performed policy move received ev result) (hmove : move ≠ .drain) :
    records .debug ev = [] := by
  cases move with
  | await flag =>
    obtain ⟨-, hwaited⟩ := h
    match result with
    | .ok () =>
      obtain ⟨polls, hmeets, rfl⟩ := hwaited
      obtain ⟨-, unmet, s, hunmet, -, hflat⟩ := hmeets.shows
      rw [records_append, records_polls hmeets.accesses, hflat, taken_append, hunmet.taken]
      rfl
    | .error _ =>
      obtain ⟨condition, polls, s, -, -, hout, rfl⟩ := hwaited
      rw [records_append, records_append, records_polls hout.accesses,
        (Move.unmet_flatten hout.1).taken]
      rfl
  | drain => exact absurd rfl hmove
  | push word =>
    obtain ⟨-, -, rfl⟩ := h
    rfl
  | pop =>
    obtain ⟨-, value, -, rfl⟩ := h
    rfl
  | refuse error =>
    obtain ⟨-, -, rfl⟩ := h
    rfl

theorem ensures_performAll_records_debug [RegisterBlock β] (engine : Engine β κ)
    {moves : List Move} (hmoves : .drain ∉ moves) :
    (performAll moves : Proc (Engine β κ) _).Ensures engine fun ev _ _ =>
      records .debug ev = [] := by
  induction moves generalizing engine with
  | nil => exact Proc.ensures_pure rfl
  | cons move rest ih =>
    have hmove : move ≠ .drain := (List.ne_of_not_mem_cons hmoves).symm
    have hrest : .drain ∉ rest := List.not_mem_of_not_mem_cons hmoves
    refine ensures_performAll_cons engine ((ensures_performed engine move).mono ?_)
    rintro ev ⟨result, received⟩ engine' hperformed
    have hnone := hperformed.records_debug hmove
    match result with
    | .error _ => exact hnone
    | .ok () =>
      refine (ih engine' hrest).mono fun ev' later _ hlater => ?_
      rw [records_append, hnone, hlater]
      rfl

/--
A transfer that is opened goes on with its first START and records nothing more at this level; one
that is not ends there.
-/
theorem layout_begun [RegisterBlock β] (engine : Engine β κ) {addr : UInt8} {legs : List Leg}
    (hne : legs ≠ []) {n : Nat} {begun run : Exec (Engine β κ) (Reply TransferError)}
    (hbegun : performAll Move.opening engine n = begun)
    (hrun : performAll (Leg.layout addr legs) engine n = run) {reply : Reply TransferError}
    (hreply : run.outcome = .ok reply) :
    ∃ result, begun.outcome = .ok ⟨result, []⟩
      ∧ records .debug run.events = records .debug begun.events
      ∧ match result with
        | .ok () => ∃ dir more, run.events = begun.events ++ queue (.start addr dir) :: more
        | .error _ => run = begun := by
  rcases layout_opened engine hne hbegun hrun with ⟨hok, rfl⟩ | ⟨hnot, rfl⟩
  · obtain ⟨dir, more, hstarted⟩ := ensures_body_started begun.state addr hne
      (Leg.lastDirection legs) begun.left reply hreply
    have hnone := ensures_performAll_records_debug begun.state
      (Leg.drain_not_mem_body addr legs (Leg.lastDirection legs)) begun.left reply hreply
    refine ⟨.ok (), hok, ?_, dir, more, ?_⟩
    · rw [records_append, hnone, List.append_nil]
    · rw [hstarted]
  · obtain ⟨result, received⟩ := reply
    obtain rfl : received = [] := received_of_opening engine (hbegun.symm ▸ hreply)
    match result with
    | .ok () => exact absurd hreply (hnot [])
    | .error error => exact ⟨.error error, hreply, rfl, rfl⟩

end Debug

/-! ## Requests -/

omit [Logger κ] in
/-- The text that a drain records. -/
theorem records_debug_discardRecord (count : Nat) : records .debug (discardRecord count)
    = if 0 < count then
        ["axi-iic: discarded " ++ toString (min count maxDiscarded) ++ " stale rx bytes"]
      else [] := by
  unfold discardRecord
  split <;> rfl

/-- **What a request that gets a reply is, up to its first START.** -/
theorem serve_begun {request : Request} {allowance : Nat} {reply : Reply TransferError}
    (hquiescent : ({ engine.registers with rx := .empty } : Controller).Quiescent)
    (haccepted : ∀ error, ¬engine.Refuses request error) (hne : request.operations ≠ [])
    (hreply : (serve request engine allowance).outcome = .ok reply) :
    let begun := performAll Move.opening engine allowance
    let run := serve request engine allowance
    ∃ result, begun.outcome = .ok ⟨result, []⟩
      ∧ Emptied engine.config.wait engine.registers.rx.toList begun.state.registers.rx.toList
        begun.events result
      ∧ records .debug run.events = records .debug begun.events
      ∧ match result with
        | .ok () => ∃ dir more, run.events = begun.events ++ queue (.start request.addr dir) :: more
        | .error _ => run = begun := by
  intro begun run
  obtain ⟨moves, hplan, -⟩ := exists_plan haccepted
  obtain ⟨-, -, -, -, rfl⟩ := (plan_eq_ok_iff engine).mp hplan
  have hrun : performAll (Leg.layout request.addr request.legs) engine allowance = run :=
    (serve_of_plan hplan allowance).symm
  obtain ⟨result, hbegun, hrest⟩ := layout_begun engine (legs_ne_nil hne) rfl hrun hreply
  exact ⟨result, hbegun, (ensures_opening_emptied engine hquiescent allowance _ hbegun).2, hrest⟩

/-- **Under a bound, a drain goes as far as the policy does**, and then the transfer goes on or ends. -/
theorem serve_begun_of_bounded {request : Request} {allowance : Nat} {timeout interval : UInt32}
    (hquiescent : ({ engine.registers with rx := .empty } : Controller).Quiescent)
    (haccepted : ∀ error, ¬engine.Refuses request error) (hne : request.operations ≠ [])
    (hlogger : ∀ level pieces (logger : κ), ∃ next, Logger.record level pieces logger = .ok next)
    (hwait : engine.config.wait = .bounded timeout interval) :
    let stale := engine.registers.rx.toList
    let pause := max interval.toNat 1
    let k := timeout.toNat ⌈/⌉ pause
    let count := min stale.length (rxFifoDepth * (k + 1))
    let begun := performAll Move.opening engine allowance
    let run := serve request engine allowance
    Leg.accessLimit (k + 1) request.addr request.legs ≤ allowance →
    ∃ result, begun.outcome = .ok ⟨result, []⟩
      ∧ result = (if stale.length < rxFifoDepth * (k + 1) then .ok ()
        else .error (.timeout .rxDrained))
      ∧ taken begun.events = stale.take count
      ∧ begun.state.registers.rx.toList = stale.drop count
      ∧ sleeps .engine begun.events
        = (List.replicate (min (stale.length / rxFifoDepth) k) (sleepParts pause)).flatten
      ∧ records .debug run.events = records .debug (discardRecord count)
      ∧ match result with
        | .ok () => ∃ dir more, run.events = begun.events ++ queue (.start request.addr dir) :: more
        | .error _ => run = begun := by
  intro stale pause k count begun run hlimit
  have hpolls : engine.config.wait.maxPolls = some k := by
    rw [hwait]
    exact WaitPolicy.maxPolls_bounded timeout interval
  have hpause : sleeps .engine (pauseEvents .engine engine.config.wait) = sleepParts pause := by
    rw [hwait]
    exact sleeps_pauseEvents .engine timeout interval
  obtain ⟨reply, hreply⟩ : ∃ reply, run.outcome = .ok reply :=
    (spends_serve (fun _ => sound_controller hlogger) hpolls haccepted).exists_answer not_false
      hlimit
  obtain ⟨result, hbegun, hemptied, hsame, hrest⟩ :=
    serve_begun engine hquiescent haccepted hne hreply
  obtain ⟨hresult, hleft, htaken, hslept, hrecorded⟩ := hemptied.bounded hpolls
  have hlength : (stale.take count).length = count := List.length_take_of_le (Nat.min_le_left ..)
  rw [hpause] at hslept
  rw [hlength] at hrecorded
  exact ⟨result, hbegun, hresult, htaken, hleft, hslept, hsame.trans hrecorded, hrest⟩

/-- **Without a bound, all stale bytes are drained and the transfer goes on.** -/
theorem serve_begun_of_infinite {request : Request} {allowance : Nat}
    (hquiescent : ({ engine.registers with rx := .empty } : Controller).Quiescent)
    (haccepted : ∀ error, ¬engine.Refuses request error) (hne : request.operations ≠ [])
    (hlogger : ∀ level pieces (logger : κ), ∃ next, Logger.record level pieces logger = .ok next)
    (hwait : engine.config.wait = .infinite)
    (hlimit : engine.registers.transferLimit request.addr request.legs ≤ allowance) :
    let begun := performAll Move.opening engine allowance
    let run := serve request engine allowance
    begun.outcome = .ok ⟨.ok (), []⟩
      ∧ taken begun.events = engine.registers.rx.toList
      ∧ begun.state.registers.rx.toList = []
      ∧ sleeps .engine begun.events = []
      ∧ records .debug run.events
        = records .debug (discardRecord engine.registers.rx.toList.length)
      ∧ ∃ dir more, run.events = begun.events ++ queue (.start request.addr dir) :: more := by
  intro begun run
  obtain ⟨reply, hreply⟩ : ∃ reply, run.outcome = .ok reply :=
    (spends_serve_of_free engine hlogger hwait hquiescent.stuckBusy hquiescent.inTransaction
      haccepted hne).exists_answer id hlimit
  obtain ⟨result, hbegun, hemptied, hsame, hrest⟩ :=
    serve_begun engine hquiescent haccepted hne hreply
  obtain ⟨rfl, hleft, htaken, hslept, hrecorded⟩ := hemptied.unbounded (by rw [hwait]; rfl)
  refine ⟨hbegun, htaken, hleft, ?_, hsame.trans hrecorded, hrest⟩
  rw [hslept, hwait, List.flatten_eq_nil_iff]
  exact fun parts hparts => List.eq_of_mem_replicate hparts

/--
**Stale bytes are drained before a transfer, as far as the policy goes.**

Let nothing but `r` bytes in its receive FIFO be left in the controller, let the request be accepted
and not be empty, and let neither the logger nor the allowance end the run. If the policy allows `k`
polls after the first, the transfer is opened if and only if `r < 16 * (k + 1)`; under the policy
without bound it always is. The opening queues no word. It takes out the first `16 * (k + 1)` stale
bytes, or all of them if there are fewer or there is no bound, in order, and leaves the others. It
pauses once for each full sixteen of them, but at most `k` times, and never without a bound. A pause
that 32 bits of nanoseconds do not hold is made of several sleeps.

If there are stale bytes, there is one record at the debug level in the whole run, with the number of
bytes taken out, or with the greatest number of 32 bits if they are more. A transfer that is opened
goes on with its first START; one that is not is over, with the timeout of the drain and without a
word queued.
-/
theorem stale_bytes_drained_exactly (engine : Engine Controller κ) (request : Request)
    (allowance : Nat)
    (hquiescent : ({ engine.registers with rx := .empty } : Controller).Quiescent)
    (haccepted : ∀ error, ¬engine.Refuses request error) (hne : request.operations ≠ [])
    (hlogger : ∀ level pieces (logger : κ), ∃ next, Logger.record level pieces logger = .ok next) :
    let stale := engine.registers.rx.toList
    let r := stale.length
    let begun := performAll Move.opening engine allowance
    let run := serve request engine allowance
    let recorded := fun count : Nat => if 0 < r then
      ["axi-iic: discarded " ++ toString (min count (2 ^ 32 - 1)) ++ " stale rx bytes"] else []
    let started := ∃ dir more, run.events = begun.events ++ queue (.start request.addr dir) :: more
    queued (accesses begun.events) = []
      ∧ (∀ timeout interval, engine.config.wait = .bounded timeout interval →
        let pause := max interval.toNat 1
        let k := timeout.toNat ⌈/⌉ pause
        let count := min r (16 * (k + 1))
        Leg.accessLimit (k + 1) request.addr request.legs ≤ allowance →
        (begun.outcome = .ok ⟨.ok (), []⟩ ↔ r < 16 * (k + 1))
          ∧ taken begun.events = stale.take count
          ∧ begun.state.registers.rx.toList = stale.drop count
          ∧ sleeps .engine begun.events
            = (List.replicate (min (r / 16) k) (sleepParts pause)).flatten
          ∧ records .debug run.events = recorded count
          ∧ (r < 16 * (k + 1) → started)
          ∧ (16 * (k + 1) ≤ r → run.outcome = .ok ⟨.error (.timeout .rxDrained), []⟩
            ∧ run.events = begun.events ∧ queued (accesses run.events) = []))
      ∧ (engine.config.wait = .infinite →
        engine.registers.transferLimit request.addr request.legs ≤ allowance →
        begun.outcome = .ok ⟨.ok (), []⟩
          ∧ taken begun.events = stale
          ∧ begun.state.registers.rx.toList = []
          ∧ sleeps .engine begun.events = []
          ∧ records .debug run.events = recorded r
          ∧ started) := by
  intro stale r begun run recorded started
  have hquiet : queued (accesses begun.events) = [] := queued_opening engine allowance
  refine ⟨hquiet, fun timeout interval hwait => ?_, fun hwait hlimit => ?_⟩
  · intro pause k count hlimit
    obtain ⟨result, hbegun, hresult, htaken, hleft, hslept, hrecorded, hrest⟩ :=
      serve_begun_of_bounded engine hquiescent haccepted hne hlogger hwait hlimit
    have hsome : 0 < count ↔ 0 < r := by omega
    have hdebug : records .debug run.events = recorded count :=
      (hrecorded.trans (records_debug_discardRecord count)).trans (if_congr hsome rfl rfl)
    rcases Nat.lt_or_ge r (16 * (k + 1)) with hlt | hge
    · obtain rfl : result = .ok () := hresult.trans (if_pos hlt)
      exact ⟨iff_of_true hbegun hlt, htaken, hleft, hslept, hdebug, fun _ => hrest,
        fun hge => absurd hlt (Nat.not_lt.mpr hge)⟩
    · have hnot : ¬r < 16 * (k + 1) := Nat.not_lt.mpr hge
      obtain rfl : result = .error (.timeout .rxDrained) := hresult.trans (if_neg hnot)
      have hrun : run = begun := hrest
      refine ⟨iff_of_false (fun hok => ?_) hnot, htaken, hleft, hslept, hdebug,
        fun hlt => absurd hlt hnot, fun _ => ?_⟩
      · cases hbegun.symm.trans hok
      · rw [hrun]
        exact ⟨hbegun, rfl, hquiet⟩
  · obtain ⟨hbegun, htaken, hleft, hslept, hdebug, hstarted⟩ :=
      serve_begun_of_infinite engine hquiescent haccepted hne hlogger hwait hlimit
    rw [records_debug_discardRecord] at hdebug
    exact ⟨hbegun, htaken, hleft, hslept, hdebug, hstarted⟩

/--
With one poll after the first, 31 stale bytes are drained and 32 are not: the poll that takes the last
one out does not find the FIFO empty, though nothing is left in it.
-/
theorem last_stale_byte_fills_a_poll :
    let engine := fun r => (⟨⟨15, .bounded 1 1⟩, true,
      (Controller.ofLatency 2 3).preload (List.replicate r 0xEE), ()⟩ : Engine Controller Unit)
    let begun := fun r => performAll Move.opening (engine r) 80
    let run := fun r => serve (.write 0x48 [1]) (engine r) 80
    (begun 31).outcome = .ok ⟨.ok (), []⟩
      ∧ sleeps .engine (begun 31).events = [1000]
      ∧ records .debug (run 31).events = ["axi-iic: discarded 31 stale rx bytes"]
      ∧ (run 32).outcome = .ok ⟨.error (.timeout .rxDrained), []⟩
      ∧ (begun 32).state.registers.rx.toList = []
      ∧ records .debug (run 32).events = ["axi-iic: discarded 32 stale rx bytes"]
      ∧ queued (accesses (run 32).events) = [] := by
  intro engine begun run
  have hquiescent : ∀ r, ({ (engine r).registers with rx := .empty } : Controller).Quiescent :=
    fun _ => ⟨rfl, rfl, rfl, rfl, rfl⟩
  have haccepted : ∀ r error, ¬(engine r).Refuses (.write 0x48 [1]) error :=
    fun _ => not_refuses_of_fits rfl (by decide) rfl rfl
  have hlimit : Leg.accessLimit 2 0x48 [.write [1]] ≤ 80 := by decide
  have hdrained := fun r => (stale_bytes_drained_exactly (engine r) (.write 0x48 [1]) 80
    (hquiescent r) (haccepted r) nofun fun _ _ _ => ⟨_, rfl⟩).2.1 1 1 rfl hlimit
  obtain ⟨hopened, -, -, hslept, hfew, -⟩ := hdrained 31
  obtain ⟨-, -, hleft, -, hmany, -, hover⟩ := hdrained 32
  obtain ⟨htimeout, -, hquiet⟩ := hover (by decide)
  exact ⟨hopened.mpr (by decide), hslept.trans (by cbv), hfew.trans (by cbv), htimeout, hleft,
    hmany.trans (by cbv), hquiet⟩

/--
What 32 bits do not hold. Of `2 ^ 32` stale bytes all are taken out, and the record says one less. A
pause of five seconds between two polls is made of two sleeps.
-/
theorem count_and_pause_beyond_32_bits :
    let request : Request := .write 0x48 [1]
    let engine := fun wait r => (⟨⟨15, wait⟩, true,
      (Controller.ofLatency 0 0).preload (List.replicate r 0xEE), ()⟩ : Engine Controller Unit)
    let begun := fun wait r allowance => performAll Move.opening (engine wait r) allowance
    let run := fun wait r allowance => serve request (engine wait r) allowance
    (∀ wait r, ({ (engine wait r).registers with rx := .empty } : Controller).Quiescent
        ∧ (engine wait r).registers.rx.toList.length = r
        ∧ ∀ error, ¬(engine wait r).Refuses request error)
      ∧ (taken (begun .infinite (2 ^ 32) (2 ^ 34)).events).length = 2 ^ 32
      ∧ records .debug (run .infinite (2 ^ 32) (2 ^ 34)).events
        = ["axi-iic: discarded 4294967295 stale rx bytes"]
      ∧ records .debug (run .infinite (2 ^ 32) (2 ^ 34)).events
        ≠ ["axi-iic: discarded 4294967296 stale rx bytes"]
      ∧ (begun (.bounded 5000000 5000000) 16 80).outcome = .ok ⟨.ok (), []⟩
      ∧ sleeps .engine (begun (.bounded 5000000 5000000) 16 80).events = [4294967000, 705033000]
      ∧ (sleeps .engine (begun (.bounded 5000000 5000000) 16 80).events).length
        ≠ min (16 / 16) 1 := by
  intro request engine begun run
  have hquiescent : ∀ wait r,
      ({ (engine wait r).registers with rx := .empty } : Controller).Quiescent :=
    fun _ _ => ⟨rfl, rfl, rfl, rfl, rfl⟩
  have hstale : ∀ wait r, (engine wait r).registers.rx.toList.length = r := by
    intro wait r
    have hlist : (engine wait r).registers.rx.toList = List.replicate r 0xEE :=
      Controller.toList_preload _ _
    rw [hlist, List.length_replicate]
  have haccepted : ∀ wait r error, ¬(engine wait r).Refuses request error :=
    fun _ _ => not_refuses_of_fits rfl (by decide) rfl rfl
  -- for any number of bytes, since a list of so many cannot be written out
  have hdrained : ∀ r allowance, 2 * r + 7 ≤ allowance →
      (taken (begun .infinite r allowance).events).length = r
        ∧ records .debug (run .infinite r allowance).events
          = records .debug (discardRecord r) := by
    intro r allowance hle
    have hempty : (Controller.ofLatency 0 0).transferLimit 0x48 request.legs = 7 := rfl
    have hlimit : (engine .infinite r).registers.transferLimit 0x48 request.legs ≤ allowance := by
      rw [Controller.transferLimit_preload, List.length_replicate, hempty]
      omega
    obtain ⟨-, htaken, -, -, hdebug, -⟩ := serve_begun_of_infinite (engine .infinite r)
      (hquiescent _ r) (haccepted _ r) nofun (fun _ _ _ => ⟨_, rfl⟩) rfl hlimit
    rw [hstale] at hdebug
    exact ⟨by rw [htaken, hstale], hdebug⟩
  obtain ⟨htaken, hdebug⟩ := hdrained (2 ^ 32) (2 ^ 34) (by decide)
  have hrecorded : records .debug (run .infinite (2 ^ 32) (2 ^ 34)).events
      = ["axi-iic: discarded 4294967295 stale rx bytes"] := by
    have hcount : min (2 ^ 32) maxDiscarded = 4294967295 := by decide
    rw [hdebug, records_debug_discardRecord, if_pos (by decide), hcount]
    cbv
  obtain ⟨result, hbegun, hresult, -, -, hslept, -⟩ :=
    serve_begun_of_bounded (engine (.bounded 5000000 5000000) 16) (hquiescent _ 16)
      (haccepted _ 16) nofun (fun _ _ _ => ⟨_, rfl⟩) rfl
      (by decide : Leg.accessLimit 2 0x48 request.legs ≤ 80)
  obtain rfl : result = .ok () := hresult.trans (if_pos (by decide))
  have hparts : sleeps .engine (begun (.bounded 5000000 5000000) 16 80).events
      = [4294967000, 705033000] := hslept.trans (by cbv)
  refine ⟨fun wait r => ⟨hquiescent wait r, hstale wait r, haccepted wait r⟩, htaken, hrecorded,
    ?_, hbegun, hparts, ?_⟩
  · rw [hrecorded]
    decide
  · rw [hparts]
    decide

end Engine

end TwoWire
