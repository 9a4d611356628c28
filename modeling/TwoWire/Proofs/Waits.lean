import TwoWire.Engine
import TwoWire.Proofs.Ensures
import TwoWire.Proofs.Trace

/-!
# Waits, poll by poll

A wait of the engine is a row of polls with a pause between any two. `Move.Missed` and `Move.Met`
say what one poll shows; `Move.Meets` and `Move.RunsOut` say so of the whole row, for a wait that is
met in time and for one that is not. `Engine.Waited` adds what comes behind the polls: a drain that
took bytes out records how many, and a wait that ran out reads the status once more and records it
(`Engine.ensures_await`, `Engine.ensures_drain`).
-/

namespace TwoWire

namespace RegisterBlock

variable {β : Type} [RegisterBlock β]

theorem ensures_load (width : Width) (offset : Nat) (block : β) :
    (load width offset).Ensures block fun ev value after => ev = [.read width offset value]
      ∧ RegisterBlock.read width offset block = .ok (value, after) := by
  intro n value hok
  cases n with
  | zero => cases hok
  | succ n =>
    simp only [load] at hok ⊢
    cases hr : RegisterBlock.read width offset block with
    | error fault => simp [hr] at hok
    | ok result =>
      obtain rfl : result.1 = value := by simpa [hr] using hok
      exact ⟨rfl, rfl⟩

theorem ensures_store (width : Width) (offset : Nat) (value : width.Value) (block : β) :
    (store width offset value).Ensures block fun ev _ after => ev = [.write width offset value]
      ∧ RegisterBlock.write width offset value block = .ok after := by
  intro n _ hok
  cases n with
  | zero => cases hok
  | succ n =>
    simp only [store] at hok ⊢
    cases hr : RegisterBlock.write width offset value block with
    | error fault => simp [hr] at hok
    | ok block' => exact ⟨rfl, rfl⟩

end RegisterBlock

namespace Event

/-- The texts of the log records of a level. -/
def records (level : Log.Level) (events : List Event) : List String :=
  events.filterMap fun
    | .log _ other text => if other = level then some text else none
    | _ => none

@[simp] theorem records_append (level : Log.Level) (a b : List Event) :
    records level (a ++ b) = records level a ++ records level b := List.filterMap_append ..

/-- A pause records nothing. -/
theorem records_sleeps (level : Log.Level) (part : Part) (parts : List Nat) :
    records level (parts.map (.sleep part)) = [] := by
  induction parts with
  | nil => rfl
  | cons ns rest ih => exact ih

@[simp] theorem sleeps_append (part : Part) (a b : List Event) :
    sleeps part (a ++ b) = sleeps part a ++ sleeps part b := List.filterMap_append ..

/-- What is picked out of other events only is not among accesses. -/
theorem filterMap_of_accesses {α : Type} {pick : Event → Option α}
    (hpick : ∀ e, e.isAccess = true → pick e = none) {events : List Event}
    (h : accesses events = events) : events.filterMap pick = [] := by
  refine List.filterMap_eq_nil_iff.mpr fun e he => hpick e ?_
  rw [← h] at he
  exact (List.mem_filter.mp he).2

/-- Accesses record nothing. -/
theorem records_of_accesses (level : Log.Level) {events : List Event}
    (h : accesses events = events) : records level events = [] := by
  refine filterMap_of_accesses (fun e he => ?_) h
  cases e with
  | read | write => rfl
  | sleep | log | call => cases he

/-- Accesses do not sleep. -/
theorem sleeps_of_accesses (part : Part) {events : List Event}
    (h : accesses events = events) : sleeps part events = [] := by
  refine filterMap_of_accesses (fun e he => ?_) h
  cases e with
  | read | write => rfl
  | sleep | log | call => cases he

end Event

/-! ## Polls -/

open Event

namespace Move

/-- What a move waits for. -/
def condition? : Move → Option Condition
  | await flag => some flag.condition
  | drain => some .rxDrained
  | push _ | pop | refuse _ => none

/--
A poll at which a wait is not met: a reading that does not show the flag, or as many bytes taken out
as the receive FIFO holds, each after a reading that reports one.
-/
def Missed : Move → List Event → Prop
  | await flag, poll => ∃ s, flag.holds s = false ∧ poll = [readStatus s]
  | drain, poll => Discarded poll ∧ (taken poll).length = rxFifoDepth
  | push _, _ | pop, _ | refuse _, _ => False

/--
A poll at which a wait is met: a reading that shows the flag, or one that reports an empty receive
FIFO before as many bytes have been taken out as that holds.
-/
def Met : Move → List Event → Prop
  | await flag, poll => ∃ s, flag.holds s = true ∧ poll = [readStatus s]
  | drain, poll => ∃ discarded s, Discarded discarded ∧ (taken discarded).length < rxFifoDepth
    ∧ s.rxEmpty = true ∧ poll = discarded ++ [readStatus s]
  | push _, _ | pop, _ | refuse _, _ => False

/-- The polls of a wait that is met at one that the policy allows. -/
def Meets (policy : WaitPolicy) (wait : Move) (polls : List (List Event)) : Prop :=
  ∃ missed last, polls = missed ++ [last] ∧ (∀ poll ∈ missed, wait.Missed poll) ∧ wait.Met last
    ∧ ∀ count, policy.maxPolls = some count → missed.length ≤ count

/-- The polls of a wait that is met at none of those that the policy allows. -/
def RunsOut (policy : WaitPolicy) (wait : Move) (polls : List (List Event)) : Prop :=
  (∀ poll ∈ polls, wait.Missed poll)
    ∧ ∃ count, policy.maxPolls = some count ∧ polls.length = count + 1

section Move

variable {policy : WaitPolicy} {wait : Move} {flag : Flag} {polls : List (List Event)}

/-- Missed polls of a flag are readings that do not show it. -/
theorem unmet_flatten (h : ∀ poll ∈ polls, (await flag).Missed poll) :
    Unmet flag polls.flatten := by
  induction polls with
  | nil => exact unmet_nil flag
  | cons poll rest ih =>
    obtain ⟨⟨s, hs, rfl⟩, hrest⟩ := List.forall_mem_cons.mp h
    exact (ih hrest).cons hs

/-- Missed polls of a drain take bytes out. -/
theorem discarded_flatten (h : ∀ poll ∈ polls, drain.Missed poll) : Discarded polls.flatten := by
  induction polls with
  | nil => exact discarded_nil
  | cons poll rest ih =>
    obtain ⟨hpoll, hrest⟩ := List.forall_mem_cons.mp h
    exact hpoll.1.append (ih hrest)

theorem Meets.shows (h : wait.Meets policy polls) : wait.Shows [] polls.flatten := by
  obtain ⟨missed, last, rfl, hmissed, hmet, -⟩ := h
  rw [List.flatten_append, List.flatten_singleton]
  cases wait with
  | await flag =>
    obtain ⟨s, hs, rfl⟩ := hmet
    exact ⟨rfl, _, s, unmet_flatten hmissed, hs, rfl⟩
  | drain =>
    obtain ⟨discarded, s, hdiscarded, -, hs, rfl⟩ := hmet
    exact ⟨rfl, _, s, (discarded_flatten hmissed).append hdiscarded, hs,
      (List.append_assoc ..).symm⟩
  | push _ | pop | refuse _ => exact hmet.elim

theorem RunsOut.fails (h : wait.RunsOut policy polls) {condition : Condition}
    (hwait : wait.condition? = some condition) (s : Status) :
    wait.Fails (.timeout condition) (polls.flatten ++ [readStatus s]) := by
  cases wait with
  | await flag =>
    obtain rfl : flag.condition = condition := Option.some.inj hwait
    exact ⟨rfl, _, s, unmet_flatten h.1, rfl⟩
  | drain =>
    obtain rfl : Condition.rxDrained = condition := Option.some.inj hwait
    exact ⟨rfl, _, s, discarded_flatten h.1, rfl⟩
  | push _ | pop | refuse _ => cases hwait

theorem Missed.accesses {poll : List Event} (h : wait.Missed poll) : accesses poll = poll := by
  cases wait with
  | await flag =>
    obtain ⟨s, -, rfl⟩ := h
    rfl
  | drain => exact h.1.accesses
  | push _ | pop | refuse _ => exact h.elim

theorem Met.accesses {poll : List Event} (h : wait.Met poll) : accesses poll = poll := by
  cases wait with
  | await flag =>
    obtain ⟨s, -, rfl⟩ := h
    rfl
  | drain =>
    obtain ⟨discarded, s, hdiscarded, -, -, rfl⟩ := h
    rw [accesses_append, hdiscarded.accesses]
    rfl
  | push _ | pop | refuse _ => exact h.elim

theorem Meets.accesses (h : wait.Meets policy polls) :
    ∀ poll ∈ polls, accesses poll = poll := by
  obtain ⟨missed, last, rfl, hmissed, hmet, -⟩ := h
  intro poll hpoll
  rcases List.mem_append.mp hpoll with hpoll | hpoll
  · exact (hmissed poll hpoll).accesses
  · rw [List.mem_singleton.mp hpoll]
    exact hmet.accesses

theorem RunsOut.accesses (h : wait.RunsOut policy polls) :
    ∀ poll ∈ polls, accesses poll = poll :=
  fun poll hpoll => (h.1 poll hpoll).accesses

end Move

end Move

/-! ## Polls in a row -/

/-- What is picked out of items in a row is picked out of the items and of what separates them. -/
theorem filterMap_intercalate {α γ : Type} (pick : α → Option γ) (separator : List α)
    (items : List (List α)) : (separator.intercalate items).filterMap pick
      = (separator.filterMap pick).intercalate (items.map (List.filterMap pick)) := by
  induction items with
  | nil => rfl
  | cons first rest ih =>
    cases rest with
    | nil => simp
    | cons second rest =>
      rw [List.intercalate_cons_cons, List.filterMap_append, List.filterMap_append, ih,
        List.map_cons, List.map_cons, List.map_cons, List.intercalate_cons_cons]

theorem nil_intercalate {α : Type} (items : List (List α)) :
    ([] : List α).intercalate items = items.flatten := by
  induction items with
  | nil => rfl
  | cons first rest ih =>
    cases rest with
    | nil => simp
    | cons second rest => simp [List.intercalate_cons_cons, ih]

/-- Between items of nothing, only what separates them shows. -/
theorem intercalate_map_nil {α γ : Type} (separator : List α) (items : List γ) :
    separator.intercalate (items.map fun _ => [])
      = (List.replicate (items.length - 1) separator).flatten := by
  induction items with
  | nil => rfl
  | cons first rest ih =>
    cases rest with
    | nil => rfl
    | cons second rest =>
      simp only [List.map_cons, List.length_cons, Nat.add_sub_cancel] at ih ⊢
      rw [List.intercalate_cons_cons, ih, List.replicate_succ, List.flatten_cons, List.nil_append]

section Polls

variable {policy : WaitPolicy} {polls : List (List Event)}
  (h : ∀ poll ∈ polls, accesses poll = poll)
include h

/-- A pause makes no access, so polls that make nothing else show them all. -/
theorem accesses_polls :
    accesses ((pauseEvents .engine policy).intercalate polls) = polls.flatten := by
  have hpause : accesses (pauseEvents .engine policy) = [] := by
    unfold pauseEvents
    split
    · rfl
    · exact accesses_sleeps ..
  rw [accesses, ← List.filterMap_eq_filter] at hpause
  rw [accesses, ← List.filterMap_eq_filter, filterMap_intercalate, hpause, nil_intercalate,
    List.filterMap_eq_filter]
  exact congrArg _ ((List.map_congr_left h).trans (List.map_id _))

/-- Polls that make nothing but accesses record nothing. -/
theorem records_polls (level : Log.Level) :
    records level ((pauseEvents .engine policy).intercalate polls) = [] := by
  have hpause : records level (pauseEvents .engine policy) = [] := by
    unfold pauseEvents
    split
    · rfl
    · exact records_sleeps ..
  have hpolls : ∀ poll ∈ polls, records level poll = [] :=
    fun poll hpoll => records_of_accesses level (h poll hpoll)
  rw [records] at hpause
  rw [records, filterMap_intercalate, hpause, nil_intercalate, List.flatten_eq_nil_iff]
  intro shown hshown
  obtain ⟨poll, hpoll, rfl⟩ := List.mem_map.mp hshown
  exact hpolls poll hpoll

/-- Polls that make nothing but accesses sleep only between any two. -/
theorem sleeps_polls :
    sleeps .engine ((pauseEvents .engine policy).intercalate polls)
      = (List.replicate (polls.length - 1) (sleeps .engine (pauseEvents .engine policy))).flatten := by
  have hpolls : ∀ poll ∈ polls, sleeps .engine poll = [] :=
    fun poll hpoll => sleeps_of_accesses .engine (h poll hpoll)
  rw [sleeps, filterMap_intercalate, ← intercalate_map_nil]
  exact congrArg _ (List.map_congr_left hpolls)

end Polls

namespace Engine

open Log (Logger)

/-- What one poll of a wait shows, by its answer. -/
def PollShows (wait : Move) (poll : List Event) : Except Empty Bool → Prop
  | .ok true => wait.Met poll
  | .ok false => wait.Missed poll

/-- What the polls of a wait show, by their answer. -/
def PollsShow (policy : WaitPolicy) (wait : Move) (polls : List (List Event)) :
    Except Empty Bool → Prop
  | .ok true => wait.Meets policy polls
  | .ok false => wait.RunsOut policy polls

/-- Polls of a wait under a policy; `tally` ties the state to the polls so far. -/
theorem ensures_polls {σ : Type} {ready : Proc σ (Except Empty Bool)} {s : σ} (wait : Move)
    (policy : WaitPolicy) (tally : List (List Event) → σ → Prop) (hstart : tally [] s)
    (hready : ∀ polls s, tally polls s → ready.Ensures s fun ev answer s' =>
      PollShows wait ev answer ∧ tally (polls ++ [ev]) s') :
    (pollUntil .engine policy ready).Ensures s fun ev answer s' =>
      ∃ polls, ev = (pauseEvents .engine policy).intercalate polls
        ∧ PollsShow policy wait polls answer ∧ tally polls s' := by
  refine ensures_pollUntil_listed
    (fun polls s => (∀ poll ∈ polls, wait.Missed poll) ∧ tally polls s)
    (fun polls answer s => PollsShow policy wait polls answer ∧ tally polls s)
    ⟨nofun, hstart⟩ (fun polls s hcount hmissed => ?_) fun count polls s hpolicy hlen hmissed => ?_
  · refine (hready polls s hmissed.2).mono fun ev answer s' h => ?_
    match answer with
    | .ok true => exact ⟨⟨polls, ev, rfl, hmissed.1, h.1, hcount⟩, h.2⟩
    | .ok false =>
      refine ⟨fun poll hpoll => ?_, h.2⟩
      rcases List.mem_append.mp hpoll with hpoll | hpoll
      · exact hmissed.1 poll hpoll
      · rw [List.mem_singleton.mp hpoll]
        exact h.1
  · exact ⟨⟨hmissed.1, count, hpolicy, hlen⟩, hmissed.2⟩

variable {β κ : Type} (engine : Engine β κ)

/-! ## Single accesses and records -/

theorem ensures_log [Logger κ] (level : Log.Level) (pieces : List String) :
    (log level pieces : Proc (Engine β κ) Unit).Ensures engine fun ev _ _ =>
      ev = [.log .engine level (String.join pieces)] := by
  refine Proc.Ensures.zoom fun n _ hok => ?_
  simp only [Log.note] at hok ⊢
  split <;> rfl

variable [RegisterBlock β]

theorem ensures_status :
    (status : Proc (Engine β κ) Status).Ensures engine fun ev s _ => ev = [readStatus s] := by
  refine Proc.Ensures.bind (Proc.Ensures.zoom ?_)
  refine (RegisterBlock.ensures_load .byte Offset.status engine.registers).mono fun ev v _ h => ?_
  exact Proc.ensures_pure (by rw [h.1]; rfl)

theorem ensures_popByte :
    (popByte : Proc (Engine β κ) UInt8).Ensures engine fun ev b _ => ev = [takeByte b] := by
  unfold popByte onRegisters
  refine Proc.Ensures.zoom ?_
  refine (RegisterBlock.ensures_load .byte Offset.rxFifo engine.registers).mono ?_
  exact fun ev b _ h => h.1

theorem ensures_pushWord (word : TxWord) :
    (pushWord word : Proc (Engine β κ) Unit).Ensures engine fun ev _ _ => ev = [queue word] := by
  unfold pushWord onRegisters
  refine Proc.Ensures.zoom ?_
  refine (RegisterBlock.ensures_store .half Offset.txFifo word.bits engine.registers).mono ?_
  exact fun ev _ _ h => h.1

/-- What the record of a drain says, if it took bytes out. -/
def discardRecord (count : Nat) : List Event :=
  if 0 < count then
    [.log .engine .debug
      ("axi-iic: discarded " ++ toString (min count maxDiscarded) ++ " stale rx bytes")]
  else []

/-- What the record of a wait that ran out says, by the status read after it. -/
def timeoutRecord (condition : Condition) (s : Status) : Event :=
  .log .engine .error
    ("axi-iic: timeout waiting for " ++ condition.name ++ ", status " ++ Hex.marked 2 s.bits.toNat)

@[simp] theorem accesses_discardRecord (count : Nat) : accesses (discardRecord count) = [] := by
  unfold discardRecord
  split <;> rfl

section Accesses

variable {policy : WaitPolicy} {polls : List (List Event)}
  (h : ∀ poll ∈ polls, accesses poll = poll) (count : Nat)
include h

/-- The accesses of a wait are those of its polls. -/
theorem accesses_waited : accesses ((pauseEvents .engine policy).intercalate polls
    ++ discardRecord count) = polls.flatten := by
  rw [accesses_append, accesses_discardRecord, List.append_nil, accesses_polls h]

/-- A wait that ran out reads the status once more. -/
theorem accesses_waited_timedOut (condition : Condition) (s : Status) :
    accesses ((pauseEvents .engine policy).intercalate polls ++ discardRecord count
      ++ [readStatus s, timeoutRecord condition s]) = polls.flatten ++ [readStatus s] := by
  rw [accesses_append, accesses_waited h]
  rfl

end Accesses

variable [Logger κ]

/-- Giving up reads the status once, and records it. -/
theorem ensures_timedOut (condition : Condition) :
    (timedOut condition : Proc (Engine β κ) _).Ensures engine fun ev result _ =>
      result = .error (.timeout condition)
        ∧ ∃ s, ev = [readStatus s, timeoutRecord condition s] := by
  refine Proc.Ensures.bind ((ensures_status engine).mono fun ev s engine' h => ?_)
  refine Proc.Ensures.bind ((ensures_log engine' _ _).mono fun ev' _ _ h' => ?_)
  subst h h'
  exact Proc.ensures_pure ⟨rfl, s, by simp [timeoutRecord, String.join, String.append_assoc]⟩

/-! ## Waits -/

/-- What a wait shows, by its result. -/
def Waited (policy : WaitPolicy) (wait : Move) (ev : List Event) :
    Except TransferError Unit → Prop
  | .ok () => ∃ polls, wait.Meets policy polls
    ∧ ev = (pauseEvents .engine policy).intercalate polls
      ++ discardRecord (taken polls.flatten).length
  | .error error => ∃ condition polls s, wait.condition? = some condition
    ∧ error = .timeout condition ∧ wait.RunsOut policy polls
    ∧ ev = (pauseEvents .engine policy).intercalate polls
      ++ discardRecord (taken polls.flatten).length ++ [readStatus s, timeoutRecord condition s]

/-- **A wait for a flag is its polls, and the record of its giving up if it ran out.** -/
theorem ensures_await (flag : Flag) :
    (await flag : Proc (Engine β κ) _).Ensures engine fun ev result _ =>
      Waited engine.config.wait (.await flag) ev result := by
  refine Proc.Ensures.bind (Proc.ensures_get (Proc.Ensures.bind ?_))
  refine (ensures_polls (.await flag) engine.config.wait (fun _ _ => True) trivial
    fun polls engine' _ => ?_).mono ?_
  · refine Proc.Ensures.bind ((ensures_status engine').mono fun ev s _ h => ?_)
    subst h
    refine Proc.ensures_pure ⟨?_, trivial⟩
    cases hs : flag.holds s with
    | true => exact ⟨s, hs, rfl⟩
    | false => exact ⟨s, hs, rfl⟩
  · rintro ev answer engine' ⟨polls, rfl, hpolls, -⟩
    match answer with
    | .ok true =>
      refine Proc.ensures_pure ⟨polls, hpolls, ?_⟩
      obtain ⟨missed, last, rfl, hmissed, ⟨s, -, rfl⟩, -⟩ := hpolls
      rw [List.flatten_append, taken_append, (Move.unmet_flatten hmissed).taken]
      rfl
    | .ok false =>
      refine (ensures_timedOut engine' _).mono fun ev' result _ h => ?_
      obtain ⟨rfl, s, rfl⟩ := h
      refine ⟨_, polls, s, rfl, rfl, hpolls, ?_⟩
      rw [(Move.unmet_flatten hpolls.1).taken, List.append_assoc]
      rfl

/-! ## Emptying the receive FIFO -/

omit [Logger κ] in
/-- A flush takes bytes out, and stops early only at a reading that reports an empty FIFO. -/
theorem ensures_flush (limit : Nat) :
    (flush limit : Proc (Engine β κ) _).Ensures engine fun ev result _ =>
      (taken ev).length = result.2 ∧ match result.1 with
        | true => ∃ discarded s, Discarded discarded ∧ (taken discarded).length < limit
          ∧ s.rxEmpty = true ∧ ev = discarded ++ [readStatus s]
        | false => Discarded ev ∧ (taken ev).length = limit := by
  induction limit generalizing engine with
  | zero => exact Proc.ensures_pure ⟨rfl, discarded_nil, rfl⟩
  | succ limit ih =>
    refine Proc.Ensures.bind ((ensures_status engine).mono fun ev s engine' h => ?_)
    subst h
    cases hs : s.rxEmpty with
    | true => exact Proc.ensures_pure ⟨rfl, [], s, discarded_nil, Nat.succ_pos _, hs, rfl⟩
    | false =>
      refine Proc.Ensures.bind ((ensures_popByte engine').mono fun ev b engine' h => ?_)
      subst h
      refine Proc.Ensures.bind ((ih engine').mono fun ev result _ h => Proc.ensures_pure ?_)
      obtain ⟨empty, count⟩ := result
      obtain ⟨hcount, h⟩ := h
      refine ⟨by simpa using hcount, ?_⟩
      cases empty with
      | true =>
        obtain ⟨discarded, t, hdiscarded, hlt, ht, rfl⟩ := h
        exact ⟨_, t, hdiscarded.cons hs b, by simpa using hlt, ht, by simp⟩
      | false =>
        obtain ⟨hdiscarded, hlen⟩ := h
        have hmore := hdiscarded.cons hs b
        exact ⟨by simpa using hmore, by simpa using hlen⟩

/-- What follows the polls of a drain. -/
def endDrain (drained : Except Empty Bool) (count : Nat) :
    Proc (Engine β κ) (Except TransferError Unit) := do
  if 0 < count then
    log .debug ["axi-iic: discarded ", toString (min count maxDiscarded), " stale rx bytes"]
  match drained with
  | .ok true => return .ok ()
  | .ok false => timedOut .rxDrained

omit engine in
theorem drain_eq : (drain : Proc (Engine β κ) _) = (do
    let policy := (← Proc.get).config.wait
    let (drained, count) ← Proc.withLocal 0 (pollUntil .engine policy flushCounting)
    endDrain drained count) := rfl

/-- A drain ends with the record of its bytes, and with that of its giving up if it ran out. -/
theorem ensures_endDrain (drained : Except Empty Bool) (count : Nat) :
    (endDrain drained count).Ensures engine fun ev result _ =>
      match drained with
      | .ok true => result = .ok () ∧ ev = discardRecord count
      | .ok false => result = .error (.timeout .rxDrained)
        ∧ ∃ s, ev = discardRecord count ++ [readStatus s, timeoutRecord .rxDrained s] := by
  -- the record of the discarded bytes comes first, whatever the rest is
  have hend : ∀ (engine : Engine β κ) (record : List Event), record = discardRecord count →
      (match drained with
        | .ok true => pure (.ok ())
        | .ok false => timedOut .rxDrained : Proc (Engine β κ) _).Ensures engine
      fun ev result _ =>
        match drained with
        | .ok true => result = .ok () ∧ record ++ ev = discardRecord count
        | .ok false => result = .error (.timeout .rxDrained) ∧ ∃ s, record ++ ev
          = discardRecord count ++ [readStatus s, timeoutRecord .rxDrained s] := by
    rintro engine _ rfl
    match drained with
    | .ok true => exact Proc.ensures_pure ⟨rfl, List.append_nil _⟩
    | .ok false =>
      refine (ensures_timedOut engine _).mono fun ev result _ h => ?_
      obtain ⟨hresult, s, rfl⟩ := h
      exact ⟨hresult, s, rfl⟩
  show Proc.Ensures (if 0 < count then _ else _) _ _
  split
  · next hpos =>
    refine Proc.Ensures.bind ((ensures_log engine _ _).mono fun record _ engine' hrecord => ?_)
    refine hend engine' record (hrecord.trans ?_)
    simp [discardRecord, hpos, String.join, String.append_assoc]
  · next hnone => exact hend engine [] (if_neg hnone).symm

/-- **A drain is its polls, the record of its bytes, and that of its giving up if it ran out.** -/
theorem ensures_drain :
    (drain : Proc (Engine β κ) _).Ensures engine fun ev result _ =>
      Waited engine.config.wait .drain ev result := by
  rw [drain_eq]
  refine Proc.Ensures.bind (Proc.ensures_get (Proc.Ensures.bind (Proc.Ensures.withLocal ?_)))
  -- the running count is that of the bytes taken out by the polls so far
  refine (ensures_polls .drain engine.config.wait
    (fun polls state => state.2 = (taken polls.flatten).length) rfl
    fun polls state hcount => ?_).mono ?_
  · refine Proc.Ensures.bind (Proc.Ensures.zoom ((ensures_flush state.1 rxFifoDepth).mono ?_))
    rintro ev ⟨empty, count⟩ engine' ⟨htaken, h⟩
    refine Proc.Ensures.bind (Proc.ensures_modify (Proc.ensures_pure ?_))
    rw [List.append_nil, List.append_nil]
    refine ⟨?_, ?_⟩
    · cases empty with
      | true => exact h
      | false => exact h
    · have hmore : (taken ev).length = count := htaken
      show state.2 + count = _
      rw [hcount, ← hmore]
      simp
  · rintro ev drained state ⟨polls, rfl, hpolls, hcount⟩
    refine (ensures_endDrain state.1 drained state.2).mono fun ev' result _ h => ?_
    rw [hcount] at h
    match drained with
    | .ok true =>
      obtain ⟨rfl, rfl⟩ := h
      exact ⟨polls, hpolls, rfl⟩
    | .ok false =>
      obtain ⟨rfl, s, rfl⟩ := h
      refine ⟨_, polls, s, rfl, rfl, hpolls, ?_⟩
      rw [List.append_assoc]
      rfl

end Engine

end TwoWire
