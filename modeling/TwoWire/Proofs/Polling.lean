import Mathlib
import TwoWire.Proofs.Endless

/-!
# Polling, poll by poll

Which polls a loop makes, and where it sleeps, is settled by the first poll that ends it. `pollAt`
is one poll run where the one before it left off; it does not depend on the policy. `pollsUpTo` puts
the first few polls in a row, with something in between any two. A loop under any policy is such a
row (`pollUntil_exact`): up to the first poll that is not a miss, or else up to the last one that
the policy allows.

A loop without bound recurses on the allowance left after its first poll, so it is such a row if
that lasts, as it does wherever a poll takes from it (`pollUntil_infinite_eq`).
-/

namespace TwoWire

variable {σ ε : Type}

/-! ## The polls of a condition -/

/-- Poll number `i`, run where the one before it left off. -/
def pollAt (ready : Proc σ (Except ε Bool)) (s : σ) (n : Nat) : Nat → Exec σ (Except ε Bool)
  | 0 => ready s n
  | i + 1 => ready (pollAt ready s n i).state (pollAt ready s n i).left

/-- Poll number `i` answers that the condition does not hold. -/
def MissesAt (ready : Proc σ (Except ε Bool)) (s : σ) (n i : Nat) : Prop :=
  (pollAt ready s n i).outcome = .ok (.ok false)

/-- Poll number `j` is the first that is not a miss. -/
def SettlesAt (ready : Proc σ (Except ε Bool)) (s : σ) (n j : Nat) : Prop :=
  (∀ i < j, MissesAt ready s n i) ∧ ¬MissesAt ready s n j

/-- The polls up to number `j` in a row, with some events in between any two. -/
def pollsUpTo (between : List Event) (ready : Proc σ (Except ε Bool)) (s : σ) (n j : Nat) :
    Exec σ (Except ε Bool) where
  events := between.intercalate ((List.range (j + 1)).map fun i => (pollAt ready s n i).events)
  outcome := (pollAt ready s n j).outcome
  state := (pollAt ready s n j).state
  left := (pollAt ready s n j).left

section Polls

variable {between : List Event} {ready next : Proc σ (Except ε Bool)} {s : σ} {n j : Nat}

/-- The polls after the first are the polls from where that one left off. -/
theorem pollAt_succ (i : Nat) :
    pollAt ready s n (i + 1) = pollAt ready (ready s n).state (ready s n).left i := by
  induction i with
  | zero => rfl
  | succ i ih =>
    show ready _ _ = ready _ _
    rw [ih]

theorem missesAt_succ {i : Nat} :
    MissesAt ready s n (i + 1) ↔ MissesAt ready (ready s n).state (ready s n).left i := by
  rw [MissesAt, pollAt_succ, MissesAt]

theorem SettlesAt.misses_zero (h : SettlesAt ready s n (j + 1)) : MissesAt ready s n 0 :=
  h.1 0 (Nat.succ_pos j)

/-- What settles after a first miss settles one poll earlier from there. -/
theorem SettlesAt.tail (h : SettlesAt ready s n (j + 1)) :
    SettlesAt ready (ready s n).state (ready s n).left j :=
  ⟨fun i hi => missesAt_succ.mp (h.1 (i + 1) (Nat.succ_lt_succ hi)),
    fun hmiss => h.2 (missesAt_succ.mpr hmiss)⟩

theorem pollsUpTo_zero : pollsUpTo between ready s n 0 = ready s n := by
  simp [pollsUpTo, pollAt]

theorem pollsUpTo_succ (j : Nat) : pollsUpTo between ready s n (j + 1) =
    let rest := pollsUpTo between ready (ready s n).state (ready s n).left j
    ⟨(ready s n).events ++ (between ++ rest.events), rest.outcome, rest.state, rest.left⟩ := by
  have hpolls : (List.range (j + 2)).map (fun i => (pollAt ready s n i).events)
      = (ready s n).events :: (List.range (j + 1)).map
        (fun i => (pollAt ready (ready s n).state (ready s n).left i).events) := by
    rw [List.range_succ_eq_map, List.map_cons, List.map_map]
    exact congrArg _ (List.map_congr_left fun i _ => congrArg Exec.events (pollAt_succ i))
  have hsome : (List.range (j + 1)).map
      (fun i => (pollAt ready (ready s n).state (ready s n).left i).events) ≠ [] := by
    simp
  simp only [pollsUpTo, pollAt_succ, hpolls, List.intercalate_cons_of_ne_nil hsome,
    List.append_assoc]

/-! ## The loops -/

/-- A first poll that is not a miss is the last one. -/
theorem pollOr_of_not_missesAt (h : ¬MissesAt ready s n 0) :
    pollOr ready next s n = ready s n := by
  have hready : pollAt ready s n 0 = ready s n := rfl
  rw [MissesAt, hready] at h
  rw [pollOr, Proc.bind_apply]
  rcases hrun : ready s n with ⟨events, halt | error | _ | _, after, left⟩
  · rfl
  · simp [Proc.pure_apply]
  · exact absurd (congrArg Exec.outcome hrun) h
  · simp [Proc.pure_apply]

/-- A first poll that is a miss is followed by the rest. -/
theorem pollOr_of_missesAt (h : MissesAt ready s n 0) : pollOr ready next s n =
    let rest := next (ready s n).state (ready s n).left
    ⟨(ready s n).events ++ rest.events, rest.outcome, rest.state, rest.left⟩ :=
  Proc.bind_of_ok h

/-- Polls with pauses go on up to the first that is not a miss, or up to the last one. -/
theorem pollOr_pollTimes_eq {part : Part} {pause count : Nat} (hle : j ≤ count)
    (hmisses : ∀ i < j, MissesAt ready s n i) (hend : j = count ∨ ¬MissesAt ready s n j) :
    pollOr ready (pollTimes part pause ready count) s n
      = pollsUpTo ((sleepParts pause).map (.sleep part)) ready s n j := by
  induction j generalizing count s n with
  | zero =>
    rw [pollsUpTo_zero]
    by_cases hmiss : MissesAt ready s n 0
    · -- the policy allows no second poll, so the first one's answer stands
      obtain rfl : 0 = count := hend.resolve_right (not_not_intro hmiss)
      have hout : (ready s n).outcome = .ok (.ok false) := hmiss
      rw [pollOr_of_missesAt hmiss, pollTimes, Proc.pure_apply, ← hout]
      simp
    · exact pollOr_of_not_missesAt hmiss
  | succ j ih =>
    obtain ⟨count, rfl⟩ := Nat.exists_eq_add_of_lt (Nat.lt_of_lt_of_le (Nat.succ_pos j) hle)
    rw [Nat.zero_add] at hle hend ⊢
    have hrest : pollOr ready (pollTimes part pause ready count) (ready s n).state (ready s n).left
        = pollsUpTo _ ready (ready s n).state (ready s n).left j :=
      ih (Nat.le_of_succ_le_succ hle)
        (fun i hi => missesAt_succ.mp (hmisses (i + 1) (Nat.succ_lt_succ hi)))
        (hend.imp Nat.succ.inj fun hmet hmiss => hmet (missesAt_succ.mpr hmiss))
    have hpaused : pollTimes part pause ready (count + 1) (ready s n).state (ready s n).left = _ :=
      Proc.bind_of_ok rfl
    rw [pollOr_of_missesAt (hmisses 0 (Nat.succ_pos j)), hpaused, pollsUpTo_succ, ← hrest]
    rfl

/-- Polls without pauses go on up to the first that is not a miss, if there are enough of them. -/
theorem pollOn_eq {fuel : Nat} (hlt : j < fuel) (h : SettlesAt ready s n j) :
    pollOn ready fuel s n = pollsUpTo [] ready s n j := by
  induction fuel generalizing j s n with
  | zero => exact absurd hlt (Nat.not_lt_zero j)
  | succ fuel ih =>
    rw [pollOn]
    cases j with
    | zero => rw [pollOr_of_not_missesAt h.2, pollsUpTo_zero]
    | succ j =>
      rw [pollOr_of_missesAt h.misses_zero, pollsUpTo_succ, ih (Nat.lt_of_succ_lt_succ hlt) h.tail]
      rfl

/-- Without a bound, the polls go on up to the first that is not a miss. -/
theorem pollUntil_infinite_of_settlesAt (part : Part) (h : SettlesAt ready s n j)
    (hallowed : j ≤ (ready s n).left ∨ (ready.Starves ∧ ready.Costs)) :
    pollUntil part .infinite ready s n = pollsUpTo [] ready s n j := by
  rcases hallowed with hle | ⟨hstarves, hcosts⟩
  · cases j with
    | zero =>
      rw [pollUntil, pollOr_of_not_missesAt h.2, pollsUpTo_zero]
    | succ j =>
      have hrest : (Proc.allowance >>= fun fuel => pollOn ready fuel) (ready s n).state
          (ready s n).left = pollsUpTo [] ready (ready s n).state (ready s n).left j := by
        rw [Proc.allowance_bind_apply, pollOn_eq hle h.tail]
      rw [pollUntil, pollOr_of_missesAt h.misses_zero, pollsUpTo_succ, ← hrest]
      rfl
  · induction j generalizing s n with
    | zero =>
      rw [pollUntil_infinite_eq part hstarves hcosts, pollOr_of_not_missesAt h.2, pollsUpTo_zero]
    | succ j ih =>
      rw [pollUntil_infinite_eq part hstarves hcosts, pollOr_of_missesAt h.misses_zero,
        pollsUpTo_succ, ih h.tail]
      rfl

end Polls

/-! ## The time slept -/

/-- Nanoseconds that a part has slept. -/
def Event.slept (part : Part) (events : List Event) : Nat := (sleeps part events).sum

theorem Event.slept_append (part : Part) (a b : List Event) :
    slept part (a ++ b) = slept part a + slept part b := by
  rw [slept, sleeps_append, List.sum_append]
  rfl

theorem Event.sleeps_pause (part : Part) (parts : List Nat) :
    sleeps part (parts.map (.sleep part)) = parts := by
  induction parts with
  | nil => rfl
  | cons ns rest ih => simp [sleeps]

theorem Event.sleeps_pauseEvents (part : Part) (timeout interval : UInt32) :
    sleeps part (pauseEvents part (.bounded timeout interval))
      = sleepParts (max interval.toNat 1) := sleeps_pause ..

/-- What is slept in a row of polls is slept in the polls and between them. -/
theorem Event.slept_intercalate (part : Part) (between : List Event) (shown : List (List Event)) :
    slept part (between.intercalate shown)
      = (shown.map (slept part)).sum + (shown.length - 1) * slept part between := by
  induction shown with
  | nil => simp [slept, sleeps]
  | cons first rest ih =>
    cases rest with
    | nil => simp
    | cons second rest =>
      have hlen : (first :: second :: rest).length - 1 = (second :: rest).length - 1 + 1 := rfl
      rw [List.intercalate_cons_cons, slept_append, slept_append, ih, hlen, Nat.succ_mul]
      simp only [List.map_cons, List.sum_cons]
      omega

/-- The polls after the first cover the timeout with their pauses. -/
theorem WaitPolicy.maxPolls_bounded (timeout interval : UInt32) :
    (bounded timeout interval).maxPolls
      = some (timeout.toNat ⌈/⌉ max interval.toNat 1) := by
  have hpos : 1 ≤ max interval.toNat 1 := Nat.le_max_right _ _
  rw [Nat.ceilDiv_eq_add_pred_div, maxPolls, Nat.add_sub_assoc hpos]

/-- As many pauses as cover the timeout exceed it by less than one pause. -/
theorem ceilDiv_mul_lt {pause : Nat} (hpos : 0 < pause) (timeout : Nat) :
    (timeout ⌈/⌉ pause) * pause < timeout + pause := by
  rw [Nat.ceilDiv_eq_add_pred_div]
  have hle := Nat.div_mul_le_self (timeout + pause - 1) pause
  omega

/--
**Polling makes the polls and the pauses that its condition and its policy call for, and no other.**

Let poll number `j`, counted from 0, be the first that is not a miss: it holds, it fails, or it ends
the run. Without a bound, the loop is the polls up to number `j` one after another; it never answers
that the policy ran out. This asks that the allowance lasts for `j` polls after the first, or that a
poll takes something from it.

Under a bound, the policy allows `k` polls after the first, where `k` is the timeout divided by the
pause and rounded up, and the pause is the interval but at least one. If `j` is at most `k`, the loop
is the polls up to number `j` with a pause between any two. If the polls up to number `k` all miss,
it is those with a pause between any two, and answers that the policy ran out. The pauses then add
up to at least the timeout and to less than the timeout and one more pause. Each pause is one sleep
of that many microseconds, made of single sleeps whose nanoseconds fit 32 bits.
-/
theorem pollUntil_exact (part : Part) (ready : Proc σ (Except ε Bool)) (s : σ) (n : Nat) :
    ((∀ j, SettlesAt ready s n j → (j ≤ (ready s n).left ∨ (ready.Starves ∧ ready.Costs)) →
        pollUntil part .infinite ready s n = pollsUpTo [] ready s n j)
      ∧ (pollUntil part .infinite ready s n).outcome ≠ .ok (.ok false))
    ∧ ∀ timeout interval : UInt32,
      let run := pollUntil part (.bounded timeout interval) ready s n
      let pause := max interval.toNat 1
      let k := timeout.toNat ⌈/⌉ pause
      let nap := (sleepParts pause).map (Event.sleep part)
      (WaitPolicy.bounded timeout interval).maxPolls = some k
        ∧ (∀ ns ∈ sleepParts pause, ns < 2 ^ 32) ∧ (sleepParts pause).sum = 1000 * pause
        ∧ (∀ j ≤ k, SettlesAt ready s n j → run = pollsUpTo nap ready s n j)
        ∧ ((∀ i ≤ k, MissesAt ready s n i) →
          run = pollsUpTo nap ready s n k ∧ run.outcome = .ok (.ok false)
            ∧ ∃ paused, Event.slept part run.events = paused
                + ((List.range (k + 1)).map
                  fun i => Event.slept part (pollAt ready s n i).events).sum
              ∧ paused = k * (1000 * pause)
              ∧ 1000 * timeout.toNat ≤ paused
              ∧ paused < 1000 * (timeout.toNat + pause)) := by
  refine ⟨⟨fun j h hallowed => pollUntil_infinite_of_settlesAt part h hallowed, ?_⟩, ?_⟩
  · have hnever : (pollUntil part .infinite ready).Ensures s fun _ answer _ =>
        answer ≠ .ok false := by
      refine ensures_pollUntil_counted (fun _ _ _ => True) ?_ (fun _ _ s _ _ => ?_) nofun
      all_goals
        intro m answer _
        match answer with
        | .ok false => trivial
        | .ok true => exact nofun
        | .error _ => exact nofun
    exact fun hexpired => hnever n _ hexpired rfl
  · intro timeout interval run pause k nap
    have hpolls := WaitPolicy.maxPolls_bounded timeout interval
    have hpos : 0 < pause := Nat.lt_of_lt_of_le Nat.one_pos (Nat.le_max_right _ _)
    have hsum : (sleepParts pause).sum = 1000 * pause := by
      rw [List.sum_eq_foldr, foldr_add_sleepParts, Nat.mul_comm]
    have hrun : run = pollOr ready (pollTimes part pause ready k) s n := by
      show pollUntil part _ ready s n = _
      rw [pollUntil, hpolls]
      rfl
    refine ⟨hpolls, fun ns hns => lt_of_mem_sleepParts hns, hsum, fun j hle h => ?_, fun h => ?_⟩
    · rw [hrun]
      exact pollOr_pollTimes_eq hle h.1 (.inr h.2)
    · have hrow : run = pollsUpTo nap ready s n k := by
        rw [hrun]
        exact pollOr_pollTimes_eq (Nat.le_refl k) (fun i hi => h i (Nat.le_of_lt hi)) (.inl rfl)
      have hnap : Event.slept part nap = 1000 * pause := by
        rw [Event.slept, Event.sleeps_pause, hsum]
      have hcovers : timeout.toNat ≤ pause * k := le_smul_ceilDiv hpos
      have hexceeds : k * pause < timeout.toNat + pause := ceilDiv_mul_lt hpos timeout.toNat
      refine ⟨hrow, ?_, k * (1000 * pause), ?_, rfl, ?_, ?_⟩
      · rw [hrow]
        exact h k (Nat.le_refl k)
      · rw [hrow, pollsUpTo, Event.slept_intercalate, hnap, List.map_map, List.length_map,
          List.length_range, Nat.add_sub_cancel, Nat.add_comm]
        rfl
      · rw [Nat.mul_left_comm, Nat.mul_comm k]
        exact Nat.mul_le_mul_left 1000 hcovers
      · rw [Nat.mul_left_comm]
        exact Nat.mul_lt_mul_of_pos_left hexceeds (by decide)

/--
A condition that counts down to zero. From 2 it holds at the third poll, after two pauses; from 9 it
misses at all five polls that three microseconds of interval allow in ten.
-/
theorem third_poll_of_a_countdown :
    let countdown : Proc Nat (Except Empty Bool) := do
      let rest ← Proc.get
      Proc.modify (· - 1)
      return .ok (rest == 0)
    pollUntil .engine .infinite countdown 2 5 = pollsUpTo [] countdown 2 5 2
      ∧ pollUntil .engine (.bounded 10 3) countdown 2 5
        = ⟨[.sleep .engine 3000, .sleep .engine 3000], .ok (.ok true), 0, 5⟩
      ∧ (pollUntil .engine (.bounded 10 3) countdown 9 5).outcome = .ok (.ok false)
      ∧ Event.slept .engine (pollUntil .engine (.bounded 10 3) countdown 9 5).events = 12000 := by
  intro countdown
  have hsettles : SettlesAt countdown 2 5 2 := by
    refine ⟨fun i hi => ?_, fun hmiss => nomatch hmiss⟩
    interval_cases i <;> rfl
  have hmisses : ∀ i ≤ 4, MissesAt countdown 9 5 i := by
    intro i hi
    interval_cases i <;> rfl
  obtain ⟨⟨hendless, -⟩, -⟩ := pollUntil_exact .engine countdown 2 5
  obtain ⟨-, -, -, hsettled, -⟩ := (pollUntil_exact .engine countdown 2 5).2 10 3
  obtain ⟨-, -, -, -, hexpired⟩ := (pollUntil_exact .engine countdown 9 5).2 10 3
  obtain ⟨-, hout, paused, hslept, hpaused, -, -⟩ := hexpired hmisses
  refine ⟨hendless 2 hsettles (.inl (by decide)), hsettled 2 (by decide) hsettles, hout, ?_⟩
  rw [hslept, hpaused]
  rfl

end TwoWire
