import TwoWire.Proofs.Budget
import TwoWire.Proofs.Polling
import TwoWire.Proofs.Waits

/-!
# Reported timeouts

A request reports a timeout exactly if a wait of it ran out, and it reports that wait's condition
(`timeout_reported_exactly`). Whether a wait ran out is read off the register accesses alone: after
what the moves before it show, come as many missed polls as the policy allows (`Move.Stalls`).

This is well defined because accesses can be cut into moves in one way only. Every move ends with an
access that none of its own accesses before is like (`Move.Ends`): a wait with the reading that meets
it, the others with their only access. No access of a missed poll is like that, and a wait that is met
in time has no more accesses than missed polls would have (`Move.Meets.not_missed`).
-/

namespace TwoWire

open Event

/-! ## The access that ends a move -/

namespace Move

/-- The access is one that a move ends with. -/
def Ends : Move → Event → Prop
  | await flag, e => ∃ s, flag.holds s = true ∧ e = readStatus s
  | drain, e => ∃ s, s.rxEmpty = true ∧ e = readStatus s
  | push word, e => e = queue word
  | pop, e => ∃ value, e = takeByte value
  | refuse _, _ => False

/-- The accesses of a missed poll. -/
def pollLength : Move → Nat
  | drain => 2 * rxFifoDepth
  | await _ | push _ | pop | refuse _ => 1

theorem pollLength_pos (wait : Move) : 0 < wait.pollLength := by
  cases wait with
  | drain => decide
  | await _ | push _ | pop | refuse _ => exact Nat.one_pos

theorem readStatus_inj {s t : Status} (h : readStatus s = readStatus t) : s = t := by
  cases s
  cases t
  injection h with _ _ hbits
  exact congrArg Status.mk hbits

theorem takeByte_ne_readStatus (value : UInt8) (s : Status) : takeByte value ≠ readStatus s := by
  intro h
  injection h with _ hoffset
  revert hoffset
  decide

theorem not_ends_of_unmet {flag : Flag} {trace : List Event} (h : Unmet flag trace) :
    ∀ e ∈ trace, ¬(await flag).Ends e := by
  obtain ⟨readings, hreadings, rfl⟩ := h
  rintro e he ⟨s, hs, rfl⟩
  obtain ⟨t, ht, hread⟩ := List.mem_map.mp he
  have hmissed := hreadings t ht
  rw [readStatus_inj hread, hs] at hmissed
  cases hmissed

theorem not_ends_of_discarded {trace : List Event} (h : Discarded trace) :
    ∀ e ∈ trace, ¬drain.Ends e := by
  obtain ⟨pairs, hpairs, rfl⟩ := h
  rintro e he ⟨s, hs, rfl⟩
  obtain ⟨pair, hpair, hmem⟩ := List.mem_flatMap.mp he
  rcases List.mem_cons.mp hmem with hread | htake
  · have hmissed := hpairs pair hpair
    rw [← readStatus_inj hread, hs] at hmissed
    cases hmissed
  · exact takeByte_ne_readStatus pair.2 s (List.mem_singleton.mp htake).symm

section Polls

variable {wait move : Move} {policy : WaitPolicy} {polls missed : List (List Event)}

theorem Missed.not_ends {poll : List Event} (h : wait.Missed poll) : ∀ e ∈ poll, ¬wait.Ends e := by
  cases wait with
  | await flag =>
    obtain ⟨s, hs, rfl⟩ := h
    exact not_ends_of_unmet ((unmet_nil flag).cons hs)
  | drain => exact not_ends_of_discarded h.1
  | push _ | pop | refuse _ => exact h.elim

theorem Missed.length_eq {poll : List Event} (h : wait.Missed poll) :
    poll.length = wait.pollLength := by
  cases wait with
  | await flag =>
    obtain ⟨s, -, rfl⟩ := h
    rfl
  | drain => rw [h.1.length_eq, h.2, pollLength]
  | push _ | pop | refuse _ => exact h.elim

theorem Met.length_le {poll : List Event} (h : wait.Met poll) :
    poll.length ≤ wait.pollLength := by
  cases wait with
  | await flag =>
    obtain ⟨s, -, rfl⟩ := h
    exact Nat.le_refl 1
  | drain =>
    obtain ⟨discarded, s, hdiscarded, hlt, -, rfl⟩ := h
    rw [List.length_append, hdiscarded.length_eq, pollLength, List.length_singleton]
    omega
  | push _ | pop | refuse _ => exact h.elim

theorem length_flatten_missed (h : ∀ poll ∈ missed, wait.Missed poll) :
    missed.flatten.length = wait.pollLength * missed.length := by
  induction missed with
  | nil => rfl
  | cons poll rest ih =>
    obtain ⟨hpoll, hrest⟩ := List.forall_mem_cons.mp h
    rw [List.flatten_cons, List.length_append, hpoll.length_eq, ih hrest, List.length_cons,
      Nat.mul_succ, Nat.add_comm]

theorem not_ends_flatten (h : ∀ poll ∈ missed, wait.Missed poll) :
    ∀ e ∈ missed.flatten, ¬wait.Ends e := by
  intro e he
  obtain ⟨poll, hpoll, hmem⟩ := List.mem_flatten.mp he
  exact (h poll hpoll).not_ends e hmem

/-- A move that succeeds shows one access that ends it, and that comes last. -/
theorem Shows.ends {received : List UInt8} {trace : List Event} (h : move.Shows received trace) :
    ∃ before last, trace = before ++ [last] ∧ (∀ e ∈ before, ¬move.Ends e) ∧ move.Ends last := by
  cases move with
  | await flag =>
    obtain ⟨-, unmet, s, hunmet, hs, rfl⟩ := h
    exact ⟨unmet, _, rfl, not_ends_of_unmet hunmet, s, hs, rfl⟩
  | drain =>
    obtain ⟨-, discarded, s, hdiscarded, hs, rfl⟩ := h
    exact ⟨discarded, _, rfl, not_ends_of_discarded hdiscarded, s, hs, rfl⟩
  | push word =>
    obtain ⟨-, rfl⟩ := h
    exact ⟨[], _, rfl, nofun, rfl⟩
  | pop =>
    obtain ⟨value, -, rfl⟩ := h
    exact ⟨[], _, rfl, nofun, value, rfl⟩
  | refuse reason => exact h.elim

theorem Shows.eq_of_prefix {r r' : List UInt8} {t t' : List Event} (h : move.Shows r t)
    (h' : move.Shows r' t') (hle : t <+: t') : t = t' := by
  obtain ⟨before, last, rfl, -, hlast⟩ := h.ends
  obtain ⟨before', last', rfl, hbefore', -⟩ := h'.ends
  rcases List.prefix_concat_iff.mp hle with heq | hle
  · exact heq
  · exact absurd hlast (hbefore' last (hle.subset (by simp)))

/-- **A move shows in one way only**, in whatever accesses it is looked for. -/
theorem Shows.eq {r r' : List UInt8} {t t' rest rest' : List Event} (h : move.Shows r t)
    (h' : move.Shows r' t') (heq : t ++ rest = t' ++ rest') : t = t' ∧ rest = rest' := by
  have hbegins : t <+: t' ++ rest' := heq ▸ List.prefix_append t rest
  have hsame : t = t' := by
    rcases List.prefix_or_prefix_of_prefix hbegins (List.prefix_append t' rest') with hle | hle
    · exact h.eq_of_prefix h' hle
    · exact (h'.eq_of_prefix h hle).symm
  subst hsame
  exact ⟨rfl, List.append_cancel_left heq⟩

/-- What ends a move is not among the accesses of its missed polls. -/
theorem Shows.not_prefix_missed {received : List UInt8} {trace : List Event}
    (h : move.Shows received trace) (hmissed : ∀ poll ∈ missed, move.Missed poll) :
    ¬trace <+: missed.flatten := by
  intro hbegins
  obtain ⟨before, last, rfl, -, hlast⟩ := h.ends
  exact not_ends_flatten hmissed last (hbegins.subset (by simp)) hlast

/-- **A wait that is met in time does not begin with all the misses that the policy allows.** -/
theorem Meets.not_missed (h : wait.Meets policy polls) {count : Nat}
    (hcount : policy.maxPolls = some count) (hmissed : ∀ poll ∈ missed, wait.Missed poll)
    (hlength : missed.length = count + 1) (rest : List Event) :
    ¬missed.flatten <+: polls.flatten ++ rest := by
  intro hbegins
  refine h.shows.not_prefix_missed hmissed
    (List.prefix_of_prefix_length_le (List.prefix_append _ rest) hbegins ?_)
  obtain ⟨before, last, rfl, hbefore, hmet, hle⟩ := h
  rw [length_flatten_missed hmissed, hlength, List.flatten_append, List.flatten_singleton,
    List.length_append, length_flatten_missed hbefore, Nat.mul_succ]
  exact Nat.add_le_add (Nat.mul_le_mul_left _ (hle count hcount)) hmet.length_le

end Polls

/-! ## Waits that run out -/

/--
The trace of some moves comes to a wait for the condition, which misses `count` polls after all the
moves before it succeeded.
-/
def Stalls (count : Nat) (moves : List Move) (condition : Condition) (trace : List Event) : Prop :=
  ∃ done wait rest received shown, ∃ missed : List (List Event), moves = done ++ wait :: rest
    ∧ ShowsAll done received shown
    ∧ wait.condition? = some condition
    ∧ missed.length = count ∧ (∀ poll ∈ missed, wait.Missed poll)
    ∧ shown ++ missed.flatten <+: trace

theorem not_stalls_nil {count : Nat} {condition : Condition} {trace : List Event} :
    ¬Stalls count [] condition trace := by
  rintro ⟨done, wait, rest, received, shown, missed, hmoves, -⟩
  exact List.append_ne_nil_of_right_ne_nil done (List.cons_ne_nil wait rest) hmoves.symm

/-- Missed polls are accesses. -/
theorem not_stalls_of_trace_nil {count : Nat} {moves : List Move} {condition : Condition} :
    ¬Stalls (count + 1) moves condition [] := by
  rintro ⟨done, wait, rest, received, shown, missed, -, -, -, hlength, hmissed, hbegins⟩
  have hnone : missed.flatten = [] := (List.append_eq_nil_iff.mp (List.prefix_nil.mp hbegins)).2
  have hlen := length_flatten_missed hmissed
  rw [hnone, hlength] at hlen
  have hpos : 0 < wait.pollLength * (count + 1) :=
    Nat.mul_pos wait.pollLength_pos (Nat.succ_pos count)
  exact absurd hlen (Nat.ne_of_lt hpos)

/-- A wait runs out at the first move, or at a later one after that succeeded. -/
theorem stalls_cons {count : Nat} {move : Move} {moves : List Move} {condition : Condition}
    {trace : List Event} : Stalls count (move :: moves) condition trace
      ↔ (move.condition? = some condition ∧ ∃ missed : List (List Event), missed.length = count
          ∧ (∀ poll ∈ missed, move.Missed poll) ∧ missed.flatten <+: trace)
        ∨ ∃ received shown later, move.Shows received shown ∧ trace = shown ++ later
          ∧ Stalls count moves condition later := by
  constructor
  · rintro ⟨_ | ⟨first, done⟩, wait, rest, received, shown, missed, hmoves, hdone, hwait, hlength,
      hmissed, hbegins⟩
    · obtain ⟨rfl, rfl⟩ := List.cons.inj hmoves
      obtain ⟨rfl, rfl⟩ := hdone
      exact Or.inl ⟨hwait, missed, hlength, hmissed, hbegins⟩
    · obtain ⟨rfl, rfl⟩ := List.cons.inj hmoves
      obtain ⟨r₁, r₂, t₁, t₂, hfirst, hdone, rfl, rfl⟩ := hdone
      obtain ⟨later, rfl⟩ := hbegins
      refine Or.inr ⟨r₁, t₁, t₂ ++ missed.flatten ++ later, hfirst, by simp, ?_⟩
      exact ⟨done, wait, rest, r₂, t₂, missed, rfl, hdone, hwait, hlength, hmissed,
        List.prefix_append _ _⟩
  · rintro (⟨hwait, missed, hlength, hmissed, hbegins⟩ | ⟨r, t, later, hfirst, rfl, hlater⟩)
    · exact ⟨[], move, moves, [], [], missed, rfl, ⟨rfl, rfl⟩, hwait, hlength, hmissed, hbegins⟩
    · obtain ⟨done, wait, rest, received, shown, missed, rfl, hdone, hwait, hlength, hmissed,
        hbegins⟩ := hlater
      refine ⟨move :: done, wait, rest, r ++ received, t ++ shown, missed, rfl,
        ⟨r, received, t, shown, hfirst, hdone, rfl, rfl⟩, hwait, hlength, hmissed, ?_⟩
      rw [List.append_assoc]
      exact (List.prefix_append_right_inj t).mpr hbegins

end Move

namespace Engine

open Log (Logger)

variable {β κ : Type}

section Performed

variable {policy : WaitPolicy} {move : Move} {moves : List Move} {received : List UInt8}
  {ev : List Event} {condition : Condition} {count : Nat}

/-- After a move that succeeded, the wait that runs out is a later one. -/
theorem Performed.stalls_iff (h : Performed policy move received ev (.ok ()))
    (hcount : policy.maxPolls = some count) (later : List Event) :
    Move.Stalls (count + 1) (move :: moves) condition (accesses ev ++ later)
      ↔ Move.Stalls (count + 1) moves condition later := by
  have hshows : move.Shows received (accesses ev) := h.outcome
  have hmet : ∀ {wait : Move}, Waited policy wait ev (.ok ()) → ∀ missed : List (List Event),
      missed.length = count + 1 → (∀ poll ∈ missed, wait.Missed poll) →
      ¬missed.flatten <+: accesses ev ++ later := by
    rintro wait ⟨polls, hmeets, rfl⟩ missed hlength hmissed
    rw [accesses_waited hmeets.accesses]
    exact hmeets.not_missed hcount hmissed hlength later
  rw [Move.stalls_cons]
  constructor
  · rintro (⟨hcondition, missed, hlength, hmissed, hbegins⟩ | ⟨r, t, rest, hmove, heq, hstalls⟩)
    · cases move with
      | await flag => exact absurd hbegins (hmet h.2 missed hlength hmissed)
      | drain => exact absurd hbegins (hmet h.2 missed hlength hmissed)
      | push _ | pop | refuse _ => cases hcondition
    · rw [(hshows.eq hmove heq).2]
      exact hstalls
  · exact fun hstalls => Or.inr ⟨received, _, later, hshows, rfl, hstalls⟩

/-- A move that fails, and that does not give up by itself, is a wait that ran out. -/
theorem Performed.waited {error : TransferError}
    (h : Performed policy move received ev (.error error)) (hmove : ∀ reason, move ≠ .refuse reason) :
    received = [] ∧ Waited policy move ev (.error error) := by
  cases move with
  | await flag => exact h
  | drain => exact h
  | push _ | pop => cases h.1
  | refuse reason => exact absurd rfl (hmove reason)

/-- At a wait that ran out, nothing else runs out. -/
theorem Waited.stalls_iff {error : TransferError} (h : Waited policy move ev (.error error))
    (hcount : policy.maxPolls = some count) :
    Move.Stalls (count + 1) (move :: moves) condition (accesses ev)
      ↔ error = .timeout condition := by
  obtain ⟨reported, polls, s, hwait, rfl, hout, rfl⟩ := h
  obtain ⟨hmissed, allowed, hallowed, hlength⟩ := hout
  obtain rfl : count = allowed := Option.some.inj (hcount.symm.trans hallowed)
  rw [accesses_waited_timedOut fun poll hpoll => (hmissed poll hpoll).accesses, Move.stalls_cons]
  constructor
  · rintro (⟨hcondition, -⟩ | ⟨r, t, rest, hmove, heq, hstalls⟩)
    · rw [hwait] at hcondition
      exact congrArg _ (Option.some.inj hcondition)
    · -- the reading for the record may meet the wait, but nothing comes after it
      rcases List.eq_nil_or_concat rest with rfl | ⟨front, last, rfl⟩
      · exact absurd hstalls Move.not_stalls_of_trace_nil
      · rw [List.concat_eq_append, ← List.append_assoc] at heq
        obtain ⟨hfront, -⟩ := List.append_inj' heq rfl
        exact absurd (hfront ▸ List.prefix_append t front) (hmove.not_prefix_missed hmissed)
  · intro hreported
    obtain rfl : reported = condition := TransferError.timeout.inj hreported
    exact Or.inl ⟨hwait, polls, hlength, hmissed, List.prefix_append _ _⟩

end Performed

variable [RegisterBlock β] [Logger κ] (engine : Engine β κ)

/-- What a move shows, and that the settings stay. -/
theorem ensures_performed_same (move : Move) :
    (perform move : Proc (Engine β κ) _).Ensures engine fun ev reply engine' =>
      Performed engine.config.wait move reply.received ev reply.result
        ∧ engine'.config = engine.config :=
  ((ensures_performed engine move).and ((always_perform_of leaves_sameSettings.toWaits
    fun word _ => leaves_sameSettings.pushWord word).ensures engine)).mono
      fun _ _ _ h => ⟨h.1, h.2.1⟩

/-- **Moves carried out report a timeout exactly if a wait among them ran out.** -/
theorem ensures_performAll_stalls {moves : List Move} (hmoves : ∀ error, .refuse error ∉ moves)
    {count : Nat} (hcount : engine.config.wait.maxPolls = some count) :
    (performAll moves : Proc (Engine β κ) _).Ensures engine fun ev reply _ => ∀ condition,
      reply.result = .error (.timeout condition)
        ↔ Move.Stalls (count + 1) moves condition (accesses ev) := by
  induction moves generalizing engine with
  | nil =>
    exact Proc.ensures_pure fun condition => iff_of_false nofun Move.not_stalls_nil
  | cons move rest ih =>
    obtain ⟨hmove, hrest⟩ := Move.refuse_not_mem_cons hmoves
    refine ensures_performAll_cons engine ((ensures_performed_same engine move).mono ?_)
    rintro ev ⟨result, received⟩ engine' ⟨hperformed, hsame⟩
    match result with
    | .ok () =>
      have hcount' : engine'.config.wait.maxPolls = some count := by rw [hsame]; exact hcount
      refine (ih engine' hrest hcount').mono ?_
      intro ev' later _ hlater condition
      rw [accesses_append, hperformed.stalls_iff hcount]
      exact hlater condition
    | .error error =>
      intro condition
      rw [(hperformed.waited hmove).2.stalls_iff hcount]
      exact ⟨fun h => Except.error.inj h, congrArg _⟩

/-! ## What a timeout leaves in the log -/

/--
Some moves came to a wait for the condition that ran out: the polls of that wait, one more reading
of the status, and the one record of an error, which names both.
-/
def GaveUp (policy : WaitPolicy) (moves : List Move) (condition : Condition)
    (received : List UInt8) (ev : List Event) : Prop :=
  ∃ done wait rest before polls s, moves = done ++ wait :: rest
    ∧ Move.ShowsAll done received (accesses before) ∧ records .error before = []
    ∧ wait.condition? = some condition ∧ wait.RunsOut policy polls
    ∧ ev = before ++ ((pauseEvents .engine policy).intercalate polls
      ++ discardRecord (taken polls.flatten).length ++ [readStatus s, timeoutRecord condition s])

omit [RegisterBlock β] [Logger κ] engine in
theorem records_discardRecord (count : Nat) : records .error (discardRecord count) = [] := by
  unfold discardRecord
  split <;> rfl

omit [RegisterBlock β] [Logger κ] engine in
/-- A move that succeeds records no error. -/
theorem Performed.records_eq_nil {policy : WaitPolicy} {move : Move} {received : List UInt8}
    {ev : List Event} (h : Performed policy move received ev (.ok ())) :
    records .error ev = [] := by
  have hwaited : ∀ {wait : Move}, Waited policy wait ev (.ok ()) → records .error ev = [] := by
    rintro wait ⟨polls, hmeets, rfl⟩
    rw [records_append, records_polls hmeets.accesses, records_discardRecord, List.append_nil]
  cases move with
  | await flag => exact hwaited h.2
  | drain => exact hwaited h.2
  | push word =>
    obtain ⟨-, -, rfl⟩ := h
    rfl
  | pop =>
    obtain ⟨-, value, -, rfl⟩ := h
    rfl
  | refuse error => cases h.1

/-- **Moves carried out record no error but that of the wait that ran out.** -/
theorem ensures_performAll_gaveUp {moves : List Move} (hmoves : ∀ error, .refuse error ∉ moves) :
    (performAll moves : Proc (Engine β κ) _).Ensures engine fun ev reply _ =>
      match reply.result with
      | .ok () => Move.ShowsAll moves reply.received (accesses ev) ∧ records .error ev = []
      | .error error => ∃ condition, error = .timeout condition
        ∧ GaveUp engine.config.wait moves condition reply.received ev := by
  induction moves generalizing engine with
  | nil => exact Proc.ensures_pure ⟨⟨rfl, rfl⟩, rfl⟩
  | cons move rest ih =>
    obtain ⟨hmove, hrest⟩ := Move.refuse_not_mem_cons hmoves
    refine ensures_performAll_cons engine ((ensures_performed_same engine move).mono ?_)
    rintro ev ⟨result, received⟩ engine' ⟨hperformed, hsame⟩
    match result with
    | .error error =>
      obtain ⟨rfl, condition, polls, s, hwait, rfl, hout, rfl⟩ := hperformed.waited hmove
      exact ⟨condition, rfl, [], move, rest, [], polls, s, rfl, ⟨rfl, rfl⟩, rfl, hwait, hout, rfl⟩
    | .ok () =>
      have hshows : move.Shows received (accesses ev) := hperformed.outcome
      refine (ih engine' hrest).mono fun ev' later _ hlater => ?_
      obtain ⟨result, more⟩ := later
      match result with
      | .ok () =>
        obtain ⟨hall, hnone⟩ := hlater
        refine ⟨⟨received, more, _, _, hshows, hall, rfl, accesses_append ..⟩, ?_⟩
        rw [records_append, hperformed.records_eq_nil, hnone]
        rfl
      | .error error =>
        obtain ⟨condition, rfl, done, wait, tail, before, polls, s, rfl, hdone, hnone, hwait, hout,
          rfl⟩ := hlater
        rw [hsame] at hout ⊢
        refine ⟨condition, rfl, move :: done, wait, tail, ev ++ before, polls, s, rfl,
          ⟨received, more, _, _, hshows, hdone, rfl, accesses_append ..⟩, ?_, hwait, hout,
          (List.append_assoc ..).symm⟩
        rw [records_append, hperformed.records_eq_nil, hnone]
        rfl

/--
**A timeout is reported exactly when a wait runs out, and for that wait.**

Let the policy allow `k` polls after the first, and let the request not be refused. Surroundings that
do all that they are asked, and an allowance for the accesses of such a request, give a reply. Any
reply reports the timeout of a condition exactly if, after the accesses of the moves before it, all
succeeding, a wait for that condition missed `k + 1` polls: one status reading each that does not show the
flag; or for the drain sixteen readings each that report a byte, with the byte taken out after it.

The run then is what those moves show; the polls of that wait with one pause between any two, `k` in
all; the record of the bytes that a drain took out; one more status reading; and the record of an
error, the only one of the run, which names the condition and that reading.
-/
theorem timeout_reported_exactly (engine : Engine β κ) (request : Request)
    (timeout interval : UInt32) (hwait : engine.config.wait = .bounded timeout interval)
    (haccepted : ∀ error, ¬engine.Refuses request error) (allowance : Nat) :
    let run := serve request engine allowance
    let layout := Leg.layout request.addr request.legs
    let pause := max interval.toNat 1
    let k := timeout.toNat ⌈/⌉ pause
    let nap := (sleepParts pause).map (Event.sleep .engine)
    (Sound β κ → Leg.accessLimit (k + 1) request.addr request.legs ≤ allowance →
        ∃ reply, run.outcome = .ok reply)
      ∧ ∀ reply, run.outcome = .ok reply → ∀ condition,
        (reply.result = .error (.timeout condition)
            ↔ Move.Stalls (k + 1) layout condition (accesses run.events))
          ∧ (reply.result = .error (.timeout condition) →
            ∃ done wait rest before polls s, layout = done ++ wait :: rest
              ∧ wait.condition? = some condition
              ∧ Move.ShowsAll done reply.received (accesses before)
              ∧ polls.length = k + 1 ∧ (∀ poll ∈ polls, wait.Missed poll)
              ∧ run.events = before ++ (nap.intercalate polls
                ++ discardRecord (taken polls.flatten).length
                ++ [readStatus s, timeoutRecord condition s])
              ∧ sleeps .engine (nap.intercalate polls)
                = (List.replicate k (sleepParts pause)).flatten
              ∧ records .error run.events = ["axi-iic: timeout waiting for " ++ condition.name
                ++ ", status " ++ Hex.marked 2 s.bits.toNat]) := by
  intro run layout pause k nap
  have hcount : engine.config.wait.maxPolls = some k := by
    rw [hwait]
    exact WaitPolicy.maxPolls_bounded timeout interval
  refine ⟨fun hsound hle => ?_, fun reply hreply condition => ?_⟩
  · exact (spends_serve (fun _ => hsound) hcount haccepted).exists_answer not_false hle
  · obtain ⟨moves, hplan, hmoves⟩ := exists_plan haccepted
    obtain ⟨-, -, -, -, rfl⟩ := (plan_eq_ok_iff engine).mp hplan
    have hrun : run = performAll layout engine allowance := serve_of_plan hplan allowance
    rw [hrun] at hreply ⊢
    refine ⟨ensures_performAll_stalls engine hmoves hcount allowance reply hreply condition, ?_⟩
    intro htimeout
    obtain ⟨result, received⟩ := reply
    obtain rfl : result = .error (.timeout condition) := htimeout
    obtain ⟨reported, hreported, done, wait, rest, before, polls, s, hlayout, hdone, hnone, hc, hout,
      hevents⟩ := ensures_performAll_gaveUp engine hmoves allowance _ hreply
    obtain rfl : condition = reported := TransferError.timeout.inj hreported
    rw [hwait] at hout hevents
    have hlength : polls.length = k + 1 := by
      obtain ⟨-, allowed, hallowed, hlength⟩ := hout
      rw [WaitPolicy.maxPolls_bounded] at hallowed
      rw [hlength, ← Option.some.inj hallowed]
    refine ⟨done, wait, rest, before, polls, s, hlayout, hc, hdone, hlength, hout.1, hevents, ?_, ?_⟩
    · have hsleeps : sleeps .engine
          ((pauseEvents .engine (.bounded timeout interval)).intercalate polls) = _ :=
        sleeps_polls hout.accesses
      rw [hlength, sleeps_pauseEvents] at hsleeps
      exact hsleeps
    · rw [hevents, records_append, hnone, records_append, records_append,
        records_polls hout.accesses, records_discardRecord]
      rfl

/-- A bus that stays busy: three polls, two pauses, one more reading, and one record of an error. -/
theorem stuck_bus_reported :
    let engine : Engine Sim.ScriptedRegisters Unit :=
      ⟨⟨15, .bounded 2 1⟩, true, ⟨[0xC4], []⟩, ()⟩
    let run := serve (.write 0x48 [1]) engine 200
    run.outcome = .ok ⟨.error (.timeout .busIdle), []⟩
      ∧ Move.Stalls 3 (Leg.layout 0x48 [.write [1]]) .busIdle (accesses run.events)
      ∧ records .error run.events
        = ["axi-iic: timeout waiting for BusIdle, status 0xc4"] := by
  intro engine run
  have haccepted : ∀ error, ¬engine.Refuses (.write 0x48 [1]) error :=
    not_refuses_of_fits rfl (by decide) rfl rfl
  have hreply : run.outcome = .ok ⟨.error (.timeout .busIdle), []⟩ := by cbv
  obtain ⟨-, hreports⟩ := timeout_reported_exactly engine (.write 0x48 [1]) 2 1 rfl
    haccepted 200
  obtain ⟨hiff, -⟩ := hreports _ hreply .busIdle
  exact ⟨hreply, hiff.mp rfl, by cbv⟩

end Engine

end TwoWire
