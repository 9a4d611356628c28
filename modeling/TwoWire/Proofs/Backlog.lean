import Mathlib
import TwoWire.Proofs.Handshake

/-!
# The backlog of the transmit FIFO

How many words the transmit FIFO may have to hold. As long as no status reading has reported it
empty again, every word queued may still be in it; `Event.backlog` counts those words, and a FIFO of
some depth is not overrun as long as there are no more of them than that (`NeverOverruns`).

The engine looks at the transmit FIFO before the first word of a transfer and after the count of
each read, but not between one word and the next. So the backlog of a transfer depends on its legs
only: `Leg.longestBurst` is the largest number of words that go out without a look. A FIFO that
holds the longest burst is never overrun, however the request ends, and a FIFO that does not is
overrun by every such request that succeeds (`Engine.neverOverruns_of_longestBurst_le`,
`Engine.longestBurst_le_of_neverOverruns`). Since a burst is as long as the bytes written ask for,
there is no depth that holds all of them.
-/

namespace TwoWire

namespace Event

/-! ## Counting words -/

/-- The words that may be in the transmit FIFO after an event, if there may be `n` before it. -/
def countWord (n : Nat) : Event → Nat
  | .read .byte offset bits =>
    if offset = Offset.status ∧ (Status.mk bits).txEmpty = true then 0 else n
  | .write .half offset _ => if offset = Offset.txFifo then n + 1 else n
  | _ => n

/-- The words that may be in the transmit FIFO after some events, if there may be `n` before. -/
def backlog (n : Nat) (events : List Event) : Nat := events.foldl countWord n

/-- A reading that reports an empty transmit FIFO is among the events. -/
def ShowsEmpty (events : List Event) : Prop := ∃ s, readStatus s ∈ events ∧ s.txEmpty = true

@[simp] theorem backlog_nil (n : Nat) : backlog n [] = n := rfl

@[simp] theorem backlog_append (n : Nat) (a b : List Event) :
    backlog n (a ++ b) = backlog (backlog n a) b := List.foldl_append

@[simp] theorem backlog_queue (n : Nat) (word : TxWord) (rest : List Event) :
    backlog n (queue word :: rest) = backlog (n + 1) rest := rfl

theorem backlog_readStatus {s : Status} (h : s.txEmpty = true) (n : Nat) (rest : List Event) :
    backlog n (readStatus s :: rest) = backlog 0 rest := by
  have hcount : countWord n (readStatus s) = 0 := if_pos ⟨rfl, h⟩
  rw [backlog, List.foldl_cons, hcount, backlog]

theorem backlog_map_queue (n : Nat) (words : List TxWord) :
    backlog n (words.map queue) = n + words.length := by
  induction words generalizing n with
  | nil => rfl
  | cons word rest ih =>
    rw [List.map_cons, backlog_queue, ih, List.length_cons]
    omega

/-- An event adds the word that it queues, or none. -/
theorem countWord_le (n : Nat) (event : Event) :
    countWord n event ≤ n + (queued [event]).length := by
  unfold countWord
  split
  · split <;> omega
  · next offset bits =>
    split
    · next h =>
      rw [h]
      exact Nat.le_refl _
    · omega
  · omega

theorem backlog_le (n : Nat) (events : List Event) :
    backlog n events ≤ n + (queued events).length := by
  induction events generalizing n with
  | nil => exact Nat.le_refl n
  | cons event rest ih =>
    have hevent := countWord_le n event
    have hrest := ih (countWord n event)
    rw [← List.singleton_append, queued_append, List.length_append]
    show backlog (countWord n event) rest ≤ _
    omega

/-- As long as no word is queued, the backlog does not grow. -/
theorem backlog_le_of_queued_eq_nil {events : List Event} (h : queued events = []) (n : Nat) :
    backlog n events ≤ n := by
  have hle := backlog_le n events
  rw [h] at hle
  exact hle

/-- As long as no reading reports an empty FIFO, every word queued counts. -/
theorem backlog_eq_of_not_showsEmpty {events : List Event} (h : ¬ShowsEmpty events) (n : Nat) :
    backlog n events = n + (queued events).length := by
  induction events generalizing n with
  | nil => rfl
  | cons event rest ih =>
    have hrest : ¬ShowsEmpty rest := fun ⟨s, hmem, hs⟩ => h ⟨s, List.mem_cons_of_mem _ hmem, hs⟩
    have hevent : countWord n event = n + (queued [event]).length := by
      unfold countWord
      split
      · next offset bits =>
        -- the reading of an empty FIFO is excluded, and no other reading counts
        have hnone : queued [.read .byte offset bits] = [] := rfl
        rw [if_neg, hnone, List.length_nil, Nat.add_zero]
        rintro ⟨rfl, hs⟩
        exact h ⟨⟨bits⟩, List.mem_cons_self, hs⟩
      · next offset bits =>
        split
        · next h => rw [h]; rfl
        · next h => simp [queued, h]
      · next hread hwrite =>
        cases event with
        | read | sleep | log | call => rfl
        | write width offset value => cases width <;> first | rfl | exact absurd rfl (hwrite _ _)
    rw [← List.singleton_append, queued_append, List.length_append, backlog_append, ih hrest]
    show countWord n event + _ = _
    rw [hevent, Nat.add_assoc]

/-- Events that report an empty FIFO have a last reading that does. -/
theorem ShowsEmpty.exists_last {events : List Event} (h : ShowsEmpty events) :
    ∃ before s between, events = before ++ readStatus s :: between ∧ s.txEmpty = true
      ∧ ¬ShowsEmpty between := by
  induction events with
  | nil =>
    obtain ⟨s, hmem, -⟩ := h
    cases hmem
  | cons event rest ih =>
    by_cases hrest : ShowsEmpty rest
    · obtain ⟨before, s, between, rfl, hs, hbetween⟩ := ih hrest
      exact ⟨event :: before, s, between, rfl, hs, hbetween⟩
    · obtain ⟨s, hmem, hs⟩ := h
      rcases List.mem_cons.mp hmem with rfl | hmem
      · exact ⟨[], s, rest, rfl, hs, hrest⟩
      · exact absurd ⟨s, hmem, hs⟩ hrest

end Event

open Event

/-! ## Overruns -/

/--
A transmit FIFO of this depth holds what a trace queues: after every reading that reports it empty,
at most `depth` words are queued before the next such reading.
-/
def NeverOverruns (depth : Nat) (trace : List Event) : Prop :=
  ∀ before s between after, trace = before ++ readStatus s :: (between ++ after) →
    s.txEmpty = true → ¬ShowsEmpty between → (queued between).length ≤ depth

/-- The backlog stays within a depth at every point of a trace. -/
def Contained (depth n : Nat) (trace : List Event) : Prop :=
  ∀ shown, shown <+: trace → backlog n shown ≤ depth

theorem contained_append {depth n : Nat} {a b : List Event} :
    Contained depth n (a ++ b) ↔ Contained depth n a ∧ Contained depth (backlog n a) b := by
  constructor
  · intro h
    refine ⟨fun shown hshown => h shown (hshown.trans (List.prefix_append a b)),
      fun shown hshown => ?_⟩
    rw [← backlog_append]
    exact h (a ++ shown) ((List.prefix_append_right_inj a).mpr hshown)
  · rintro ⟨ha, hb⟩ shown hshown
    rcases List.prefix_or_prefix_of_prefix hshown (List.prefix_append a b) with hfirst | ⟨rest, rfl⟩
    · exact ha shown hfirst
    · rw [backlog_append]
      exact hb rest ((List.prefix_append_right_inj a).mp hshown)

/-- With few enough words queued in all, the backlog stays within the depth. -/
theorem contained_of_length_le {depth n : Nat} {trace : List Event}
    (h : n + (queued trace).length ≤ depth) : Contained depth n trace := by
  rintro shown ⟨rest, rfl⟩
  rw [queued_append, List.length_append] at h
  have hle := backlog_le n shown
  omega

theorem Contained.neverOverruns {depth : Nat} {trace : List Event} (h : Contained depth 0 trace) :
    NeverOverruns depth trace := by
  rintro before s between after rfl hs hbetween
  have hshown : before ++ readStatus s :: between
      <+: before ++ readStatus s :: (between ++ after) := ⟨after, by simp⟩
  have hle := h _ hshown
  rw [backlog_append, backlog_readStatus hs, backlog_eq_of_not_showsEmpty hbetween] at hle
  omega

/-- If a FIFO is not overrun, it holds the backlog once it has been reported empty. -/
theorem NeverOverruns.backlog_le {depth : Nat} {shown rest : List Event}
    (h : NeverOverruns depth (shown ++ rest)) (hempty : ShowsEmpty shown) (n : Nat) :
    backlog n shown ≤ depth := by
  obtain ⟨before, s, between, rfl, hs, hbetween⟩ := hempty.exists_last
  rw [backlog_append, backlog_readStatus hs, backlog_eq_of_not_showsEmpty hbetween, Nat.zero_add]
  exact h before s between rest (by simp) hs hbetween

/-! ## Moves -/

namespace Move

/-- The backlog after a move, if it was `n` before: only waiting for the FIFO lets it go down. -/
def backlog (n : Nat) : Move → Nat
  | push _ => n + 1
  | await .txEmpty => 0
  | _ => n

/-- The largest backlog while moves are carried out, if it was `n` before. -/
def peak (n : Nat) : List Move → Nat
  | [] => n
  | move :: rest => max n (peak (move.backlog n) rest)

theorem backlog_mono {n m : Nat} (h : n ≤ m) (move : Move) : move.backlog n ≤ move.backlog m := by
  cases move with
  | await flag => cases flag <;> first | exact h | exact Nat.le_refl 0
  | push word => exact Nat.succ_le_succ h
  | drain | pop | refuse => exact h

theorem peak_mono {n m : Nat} (h : n ≤ m) (moves : List Move) : peak n moves ≤ peak m moves := by
  induction moves generalizing n m with
  | nil => exact h
  | cons move rest ih =>
    have hrest := ih (backlog_mono h move)
    rw [peak, peak]
    omega

theorem le_peak (n : Nat) (moves : List Move) : n ≤ peak n moves := by
  cases moves with
  | nil => exact Nat.le_refl n
  | cons => exact Nat.le_max_left ..

theorem foldl_backlog_le_peak (n : Nat) (moves : List Move) :
    moves.foldl backlog n ≤ peak n moves := by
  induction moves generalizing n with
  | nil => exact Nat.le_refl n
  | cons move rest ih => exact Nat.le_trans (ih _) (Nat.le_max_right ..)

theorem peak_append (n : Nat) (xs ys : List Move) :
    peak n (xs ++ ys) = max (peak n xs) (peak (xs.foldl backlog n) ys) := by
  induction xs generalizing n with
  | nil => exact (Nat.max_eq_right (le_peak n ys)).symm
  | cons move rest ih => rw [List.cons_append, peak, ih, peak, List.foldl_cons, Nat.max_assoc]

theorem peak_pushAll (n : Nat) (words : List TxWord) :
    peak n (pushAll words) = n + words.length
      ∧ (pushAll words).foldl backlog n = n + words.length := by
  induction words generalizing n with
  | nil => exact ⟨rfl, rfl⟩
  | cons word rest ih =>
    obtain ⟨hpeak, hafter⟩ := ih (n + 1)
    rw [pushAll, List.map_cons, ← pushAll, peak, List.foldl_cons, backlog, hpeak, hafter,
      List.length_cons]
    omega

theorem peak_receive (n count : Nat) :
    peak n (receive count) = n ∧ (receive count).foldl backlog n = n := by
  induction count with
  | zero => exact ⟨rfl, rfl⟩
  | succ count ih =>
    obtain ⟨hpeak, hafter⟩ := ih
    simp [receive, peak, backlog, hpeak, hafter]

theorem peak_closing (n : Nat) (dir : Direction) : peak n (closing dir) = n := by
  cases dir <;> simp [closing, peak, backlog]

/-- A move that succeeds leaves no larger backlog than it should. -/
theorem Shows.backlog_le {move : Move} {received : List UInt8} {trace : List Event}
    (h : move.Shows received trace) (n : Nat) : Event.backlog n trace ≤ move.backlog n := by
  cases move with
  | await flag =>
    cases flag with
    | txEmpty =>
      obtain ⟨-, unmet, s, -, hs, rfl⟩ := h
      rw [backlog_append, backlog_readStatus hs]
      exact Nat.le_refl 0
    | busIdle | rxData => exact backlog_le_of_queued_eq_nil h.2.queued n
  | drain => exact backlog_le_of_queued_eq_nil h.2.queued n
  | push word =>
    obtain ⟨-, rfl⟩ := h
    exact Nat.le_refl _
  | pop =>
    obtain ⟨value, -, rfl⟩ := h
    exact backlog_le_of_queued_eq_nil rfl n
  | refuse reason => exact absurd h id

end Move

/-! ## Legs -/

namespace Leg

/-- The most words that go out without a look at the FIFO, if `n` have gone out before the legs. -/
def longestBurst (n : Nat) : List Leg → Nat
  | [] => n
  | write bytes :: rest => longestBurst (n + 1 + bytes.length) rest
  | read _ :: rest => max (n + 2) (longestBurst 0 rest)

theorem le_longestBurst (n : Nat) (legs : List Leg) : n ≤ longestBurst n legs := by
  induction legs generalizing n with
  | nil => exact Nat.le_refl n
  | cons leg rest ih =>
    cases leg with
    | write bytes =>
      have hrest := ih (n + 1 + bytes.length)
      rw [longestBurst]
      omega
    | read count =>
      rw [longestBurst]
      omega

theorem peak_frame (addr : UInt8) (n : Nat) (legs : List Leg) :
    Move.peak n (frame addr legs) = longestBurst n legs := by
  induction legs generalizing n with
  | nil => rfl
  | cons leg rest ih =>
    rw [frame, List.append_assoc, Move.peak_append, (Move.peak_pushAll _ _).1,
      (Move.peak_pushAll _ _).2, length_words]
    cases leg with
    | write bytes =>
      rw [collect, List.nil_append, ih, longestBurst, wordCount, Nat.add_comm bytes.length,
        ← Nat.add_assoc]
      exact Nat.max_eq_right (le_longestBurst _ _)
    | read count =>
      rw [collect, List.cons_append, Move.peak, Move.peak_append, Move.backlog,
        (Move.peak_receive _ _).1, (Move.peak_receive _ _).2, ih, longestBurst, wordCount]
      omega

/-- **The backlog of a transfer peaks at its longest burst.** -/
theorem peak_layout (addr : UInt8) (legs : List Leg) :
    Move.peak 0 (layout addr legs) = longestBurst 0 legs := by
  unfold layout
  split
  · next h =>
    rw [List.isEmpty_iff.mp h]
    rfl
  · have hopening : Move.peak 0 Move.opening = 0 ∧ Move.opening.foldl Move.backlog 0 = 0 :=
      ⟨rfl, rfl⟩
    rw [Move.peak_append, Move.peak_closing, Nat.max_eq_left (Move.foldl_backlog_le_peak _ _),
      Move.peak_append, hopening.1, hopening.2, peak_frame, Nat.zero_max]

/-- Every burst of legs that are carried out shows in the trace. -/
theorem CarriedAll.exists_backlog_eq {addr : UInt8} {legs : List Leg} {received : List UInt8}
    {trace : List Event} (h : CarriedAll addr legs received trace) (n : Nat) :
    ∃ shown rest, trace = shown ++ rest ∧ backlog n shown = longestBurst n legs := by
  induction legs generalizing n received trace with
  | nil => exact ⟨[], trace, rfl, rfl⟩
  | cons leg rest ih =>
    obtain ⟨_, _, first, more, hleg, hrest, -, rfl⟩ := h
    cases leg with
    | write bytes =>
      obtain ⟨-, rfl⟩ := hleg
      obtain ⟨shown, left, rfl, hburst⟩ := ih hrest (n + 1 + bytes.length)
      refine ⟨_ ++ shown, left, (List.append_assoc ..).symm, ?_⟩
      rw [backlog_append, backlog_queue, backlog_map_queue, TxWord.length_ofBytes, hburst,
        longestBurst]
    | read count =>
      obtain ⟨-, waiting, collected, ⟨unmet, s, -, hs, rfl⟩, hcollected, rfl⟩ := hleg
      obtain ⟨shown, left, rfl, hburst⟩ := ih hrest 0
      -- the longest burst ends with this count, or comes after the wait for it
      by_cases hlong : longestBurst 0 rest ≤ n + 2
      · refine ⟨[queue (.start addr .read), queue (.closing (UInt8.ofNat count) rest.isEmpty)], _,
          rfl, ?_⟩
        rw [longestBurst, Nat.max_eq_left hlong]
        rfl
      · refine ⟨_ ++ shown, left, (List.append_assoc ..).symm, ?_⟩
        have hcollecting : backlog 0 collected = 0 :=
          Nat.le_zero.mp (backlog_le_of_queued_eq_nil hcollected.queued 0)
        have hsent : Flag.txEmpty.holds s = s.txEmpty := rfl
        rw [backlog_append, backlog_queue, backlog_queue, backlog_append, backlog_append,
          backlog_readStatus (hsent ▸ hs), backlog_nil, hcollecting, hburst, longestBurst]
        omega

end Leg

/-! ## Requests -/

namespace Engine

open Log (Logger)

variable {β κ : Type} [RegisterBlock β] [Logger κ]

/-- Whatever waiting is made of queues no word. -/
theorem waits_queued :
    Waits fun (_ : Engine β κ) events _ => queued (accesses events) = [] := by
  have hchained : Proc.Chained fun (_ : Engine β κ) events (_ : Engine β κ) =>
      queued (accesses events) = [] :=
    ⟨fun _ => rfl, fun h h' => by rw [accesses_append, queued_append, h, h', List.append_nil]⟩
  have hload : ∀ offset, Proc.Always
      (fun (_ : Engine β κ) events (_ : Engine β κ) => queued (accesses events) = [])
      (onRegisters (RegisterBlock.load .byte offset)) := by
    intro offset engine n
    show queued (accesses (RegisterBlock.load .byte offset engine.registers n).events) = []
    unfold RegisterBlock.load
    split
    · rfl
    · split <;> rfl
  refine ⟨hchained, ?_, hload Offset.rxFifo, ?_, ?_⟩
  · exact (hload Offset.status).bind hchained fun _ => Proc.always_pure hchained _
  · intro level pieces engine n
    show queued (accesses (Log.note .engine level pieces engine.logger n).events) = []
    unfold Log.note
    split <;> rfl
  · intro us engine n
    show queued (accesses ((sleepParts us).map (.sleep .engine))) = []
    rw [accesses_sleeps, queued_nil]

/-- Queueing a word queues that word, or none if it fails. -/
theorem length_queued_pushWord (word : TxWord) (engine : Engine β κ) (allowance : Nat) :
    (queued (accesses (perform (.push word) engine allowance).events)).length ≤ 1 := by
  have hpush : perform (.push word)
      = (fun _ => ⟨.ok (), []⟩) <$> (pushWord word : Proc (Engine β κ) Unit) := bind_pure_comp ..
  rw [hpush]
  show (queued (accesses (RegisterBlock.store .half Offset.txFifo word.bits engine.registers
    allowance).events)).length ≤ 1
  unfold RegisterBlock.store
  split
  · exact Nat.zero_le 1
  · split
    · exact Nat.zero_le 1
    · exact Nat.le_refl 1

/-- While a move is carried out, the backlog is at most what it is before or after. -/
theorem contained_perform (move : Move) {depth n : Nat} (hbefore : n ≤ depth)
    (hafter : move.backlog n ≤ depth) (engine : Engine β κ) (allowance : Nat) :
    Contained depth n (accesses (perform move engine allowance).events) := by
  refine contained_of_length_le ?_
  by_cases hmove : ∃ word, move = .push word
  · obtain ⟨word, rfl⟩ := hmove
    have hlen := length_queued_pushWord word engine allowance
    have hroom : n + 1 ≤ depth := hafter
    omega
  · have hquiet := always_perform_of_ne_push waits_queued (fun word h => hmove ⟨word, h⟩) engine
      allowance
    rw [hquiet]
    exact hbefore

/-- While moves are carried out, the backlog is at most their peak. -/
theorem contained_performAll (moves : List Move) {depth n : Nat} (h : Move.peak n moves ≤ depth)
    (engine : Engine β κ) (allowance : Nat) :
    Contained depth n (accesses (performAll moves engine allowance).events) := by
  induction moves generalizing n engine allowance with
  | nil => exact contained_of_length_le h
  | cons move rest ih =>
    obtain ⟨hbefore, hrest⟩ := Nat.max_le.mp h
    have hfirst := contained_perform move hbefore (Nat.le_trans (Move.le_peak _ rest) hrest) engine
      allowance
    cases hperform : (perform move engine allowance).outcome with
    | error halt =>
      rw [performAll, Proc.bind_of_halt hperform]
      exact hfirst
    | ok first =>
      rw [performAll, Proc.bind_of_ok hperform]
      obtain ⟨result, received⟩ := first
      have hshows := ensures_perform engine move allowance _ hperform
      rw [accesses_append, contained_append]
      refine ⟨hfirst, ?_⟩
      cases result with
      | error error => exact contained_of_length_le (hfirst _ (List.prefix_refl _))
      | ok =>
        have hle : Event.backlog n (accesses (perform move engine allowance).events)
            ≤ move.backlog n := Move.Shows.backlog_le hshows n
        exact ih (Nat.le_trans (Move.peak_mono hle rest) hrest) _ _

/-- A transmit FIFO that holds the longest burst of a request is not overrun, however it ends. -/
theorem neverOverruns_of_longestBurst_le {request : Request} {depth : Nat}
    (h : Leg.longestBurst 0 request.legs ≤ depth) (engine : Engine β κ) (allowance : Nat) :
    NeverOverruns depth (accesses (serve request engine allowance).events) := by
  refine Contained.neverOverruns ?_
  unfold serve
  rw [Proc.get_bind_apply]
  cases hplan : engine.plan request with
  | error error => exact contained_of_length_le (Nat.zero_le depth)
  | ok moves =>
    obtain ⟨-, -, -, -, rfl⟩ := (plan_eq_ok_iff engine).mp hplan
    exact contained_performAll _ (Leg.peak_layout _ _ ▸ h) engine allowance

/-- A request that succeeds overruns a transmit FIFO that does not hold its longest burst. -/
theorem longestBurst_le_of_neverOverruns {request : Request} (hne : request.operations ≠ [])
    {engine : Engine β κ} {allowance depth : Nat} {received : List UInt8}
    (hok : (serve request engine allowance).outcome = .ok ⟨.ok (), received⟩)
    (h : NeverOverruns depth (accesses (serve request engine allowance).events)) :
    Leg.longestBurst 0 request.legs ≤ depth := by
  obtain ⟨-, -, -, free, sent, drained, carried, concluded, hfree, hsent, hdrained, hcarried, -,
    htrace⟩ := handshake_of_serve hne hok
  obtain ⟨shown, rest, rfl, hburst⟩ := hcarried.exists_backlog_eq 0
  -- before the first leg the FIFO has been reported empty, and nothing has been queued yet
  have hqueued : queued (free ++ sent ++ drained) = [] := by
    simp [hfree.queued, hsent.queued, hdrained.queued]
  have hnone : backlog 0 (free ++ sent ++ drained) = 0 :=
    Nat.le_zero.mp (backlog_le_of_queued_eq_nil hqueued 0)
  have hempty : ShowsEmpty (free ++ sent ++ drained ++ shown) := by
    obtain ⟨unmet, s, -, hs, rfl⟩ := hsent
    exact ⟨s, by simp, hs⟩
  have hsplit : NeverOverruns depth (free ++ sent ++ drained ++ shown ++ (rest ++ concluded)) := by
    rw [htrace] at h
    simpa using h
  have hle := hsplit.backlog_le hempty 0
  rwa [backlog_append, hnone, hburst] at hle

/--
**How deep a transmit FIFO a request needs.**

A FIFO that holds the longest burst of its legs is never overrun, whatever the registers do, the
wait policy is, and however the request ends. A FIFO that does not is overrun whenever the request
succeeds. So the depth of a controller, `rxFifoDepth`, is enough for a last write of up to 15 bytes,
and for one of up to 13 that is followed by a read, and for no longer ones.
-/
theorem serve_neverOverruns (engine : Engine β κ) (request : Request) (allowance depth : Nat) :
    (Leg.longestBurst 0 request.legs ≤ depth →
        NeverOverruns depth (accesses (serve request engine allowance).events))
      ∧ ∀ received, request.operations ≠ [] →
        (serve request engine allowance).outcome = .ok ⟨.ok (), received⟩ →
          NeverOverruns depth (accesses (serve request engine allowance).events) →
            Leg.longestBurst 0 request.legs ≤ depth :=
  ⟨fun h => neverOverruns_of_longestBurst_le h engine allowance,
    fun _ hne hok => longestBurst_le_of_neverOverruns hne hok⟩

/-- Over registers that are always idle, a write of 15 bytes just fits. -/
theorem fifteen_bytes_fit :
    let engine : Engine Sim.ScriptedRegisters Unit := ⟨.standard, true, ⟨[], []⟩, ()⟩
    let request := Request.write 0x48 (List.replicate 15 0)
    let trace := accesses (serve request engine 40).events
    Leg.longestBurst 0 request.legs = rxFifoDepth
      ∧ (serve request engine 40).outcome = .ok ⟨.ok (), []⟩
      ∧ NeverOverruns rxFifoDepth trace ∧ ¬NeverOverruns (rxFifoDepth - 1) trace := by
  intro engine request trace
  have hok : (serve request engine 40).outcome = .ok ⟨.ok (), []⟩ := by cbv
  have hne : request.operations ≠ [] := List.cons_ne_nil _ _
  refine ⟨rfl, hok, (serve_neverOverruns engine request 40 rxFifoDepth).1 (Nat.le_refl 16),
    fun h => ?_⟩
  exact absurd ((serve_neverOverruns engine request 40 (rxFifoDepth - 1)).2 [] hne hok h)
    (by decide)

/-- A write of 16 bytes succeeds, and has queued 17 words without looking at the FIFO again. -/
theorem sixteen_bytes_overrun :
    let engine : Engine Sim.ScriptedRegisters Unit := ⟨.standard, true, ⟨[], []⟩, ()⟩
    let request := Request.write 0x48 (List.replicate 16 0)
    (serve request engine 40).outcome = .ok ⟨.ok (), []⟩
      ∧ ¬NeverOverruns rxFifoDepth (accesses (serve request engine 40).events) := by
  intro engine request
  have hok : (serve request engine 40).outcome = .ok ⟨.ok (), []⟩ := by cbv
  refine ⟨hok, fun h => ?_⟩
  have hne : request.operations ≠ [] := List.cons_ne_nil _ _
  exact absurd (longestBurst_le_of_neverOverruns hne hok h) (by decide)

end Engine

end TwoWire
