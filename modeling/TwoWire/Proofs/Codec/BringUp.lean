import Mathlib
import TwoWire.Proofs.Codec.Course

/-!
# The codec bring-up sequence

Bringing up the codec keeps to its sequence over any bus (`Config.bringUp_sequence`). The parts of
that statement are read off the course that bringing up takes, one lemma for each: the calls are the
first ones of the sequence, the clock is enabled only once the PLL has locked, no call is made after
one that has failed, and each way of ending is told from the calls and their replies.
-/

namespace TwoWire.Codec

open Event
open Sim (ScriptedMaster)

variable {σ ε κ α : Type}

namespace Config

variable {c : Config} {polls xs : List (Call × Reply ε)}
  {out : Except Halt (Except (BringUpError ε) Unit)}

theorem LockPolls.mem_call {last : Reply ε → Prop} (h : c.LockPolls polls last) :
    ∀ x ∈ polls, x.1 = .serve c.readBlock := by
  obtain ⟨front, reply, rfl, hfront, -⟩ := h
  intro x hx
  rcases List.mem_append.mp hx with hx | hx
  · exact (hfront x hx).1
  · rw [List.mem_singleton.mp hx]

/-- Every call made while waiting for lock reads the PLL block. -/
theorem AwaitedLock.calls_eq (h : c.AwaitedLock polls out) :
    polls.map Prod.fst = (List.replicate polls.length c.readBlock).map .serve := by
  have hmem : ∀ x ∈ polls, x.1 = .serve c.readBlock := by
    match out, h with
    | .error halt, h => exact fun x hx => (h.2.1 x hx).1
    | .ok (.error (.bus e)), h => exact LockPolls.mem_call h.2
    | .ok (.error .lockTimeout), h => exact fun x hx => (h.2.2 x hx).1
    | .ok (.ok ()), h => exact LockPolls.mem_call h.2
  rw [List.map_replicate]
  exact List.eq_replicate_iff.mpr ⟨List.length_map .., by simpa using hmem⟩

/-- Whatever is read before, the request that enables the clock is none of it. -/
theorem clockWrite_not_mem (c : Config) (count : Nat) :
    .serve c.clockWrite ∉ (c.start ++ List.replicate count c.readBlock).map Call.serve := by
  have hread : c.clockWrite ≠ c.readBlock := nofun
  have hwrite : c.clockWrite ≠ c.writeBlock := by
    intro h
    injection h with _ hsub _
    have hsame : subAddress Register.clockControl.offset = subAddress Register.pll.offset := hsub
    exact absurd hsame (by decide)
  simp [start, hread, hwrite]

theorem LockPolls.ne_nil {last : Reply ε → Prop} (h : c.LockPolls polls last) : polls ≠ [] := by
  obtain ⟨front, reply, rfl, -, -⟩ := h
  simp

theorem Ready.calls_eq (h : c.Ready polls) :
    polls.map Prod.fst = (List.replicate polls.length c.readBlock).map .serve := by
  unfold Ready at h
  split at h
  · exact h.calls_eq
  · rw [h]
    rfl

/-- There are polls for lock if and only if the PLL is enabled. -/
theorem Ready.length_eq_zero_iff (h : c.Ready polls) :
    polls.length = 0 ↔ c.pll.isEnabled = false := by
  unfold Ready at h
  split at h
  · next henabled => simpa [henabled] using LockPolls.ne_nil h.2
  · next henabled => simpa [h] using henabled

/-- The calls up to the one that enables the clock. -/
theorem map_fst_append {begun : List (Call × Reply ε)} (hbegun : Ran c.start begun (.ok (.ok ())))
    (hpolls : polls.map Prod.fst = (List.replicate polls.length c.readBlock).map .serve) :
    (begun ++ polls).map Prod.fst
      = (c.start ++ List.replicate polls.length c.readBlock).map .serve := by
  rw [List.map_append, hbegun.1, hpolls, ← List.map_append]

theorem Ready.length_le (h : c.Ready polls) {most : Nat}
    (hmost : c.lockWait.maxPolls = some most) : polls.length ≤ most + 1 := by
  unfold Ready at h
  split at h
  · exact h.1 most hmost
  · rw [h]
    exact Nat.zero_le _

/-- Fewer polls than there are in a sequence are still its first calls. -/
theorem start_isPrefix (c : Config) {count polls : Nat} (h : count ≤ polls) :
    c.start ++ List.replicate count c.readBlock <+: c.sequence polls := by
  refine ⟨List.replicate (polls - count) c.readBlock ++ c.finish, ?_⟩
  rw [sequence, ← List.append_assoc, List.append_assoc c.start, List.replicate_append_replicate,
    Nat.add_sub_cancel' h]

/-- **The calls are the first ones of the sequence.** -/
theorem Course.in_order (h : c.Course xs out) : ∃ polls,
    (polls = 0 ↔ c.pll.isEnabled = false)
      ∧ (∀ most, c.lockWait.maxPolls = some most → polls ≤ most + 1)
      ∧ xs.map Prod.fst <+: (c.sequence polls).map .serve := by
  cases h with
  | starting h hstop =>
    refine ⟨if c.pll.isEnabled then 1 else 0, by cases c.pll.isEnabled <;> simp, ?_, ?_⟩
    · intro most _
      split <;> omega
    · have hstart := (c.start_isPrefix (Nat.zero_le (if c.pll.isEnabled then 1 else 0))).map
        Call.serve
      rw [List.replicate_zero, List.append_nil] at hstart
      exact h.in_order.trans hstart
  | @locking begun polls _ hbegun henabled h hstop =>
    refine ⟨max 1 polls.length, by simp [henabled], fun most hmost => ?_, ?_⟩
    · have hlen := h.1 most hmost
      omega
    · rw [map_fst_append hbegun h.calls_eq]
      exact (c.start_isPrefix (Nat.le_max_right ..)).map _
  | @finishing begun polls ended _ hbegun hready h =>
    refine ⟨polls.length, hready.length_eq_zero_iff, fun most => hready.length_le, ?_⟩
    have hsequence : (c.sequence polls.length).map Call.serve
        = (c.start ++ List.replicate polls.length c.readBlock).map Call.serve
          ++ c.finish.map Call.serve := List.map_append ..
    rw [List.map_append, map_fst_append hbegun hready.calls_eq, hsequence]
    exact (List.prefix_append_right_inj _).mpr h.in_order

/-- What comes before the first occurrence of something in a list, and what comes after it. -/
theorem append_cons_inj_of_not_mem {a : α} {xs ys xs' ys' : List α} (hx : a ∉ xs) (hy : a ∉ ys)
    (h : xs ++ a :: xs' = ys ++ a :: ys') : xs = ys ∧ xs' = ys' := by
  induction xs generalizing ys with
  | nil =>
    cases ys with
    | nil => exact ⟨rfl, (List.cons.inj h).2⟩
    | cons y rest =>
      obtain ⟨rfl, -⟩ := List.cons.inj h
      exact absurd List.mem_cons_self hy
  | cons x rest ih =>
    cases ys with
    | nil =>
      obtain ⟨rfl, -⟩ := List.cons.inj h
      exact absurd List.mem_cons_self hx
    | cons y more =>
      obtain ⟨rfl, htail⟩ := List.cons.inj h
      obtain ⟨rfl, rfl⟩ := ih (fun hmem => hx (List.mem_cons_of_mem _ hmem))
        (fun hmem => hy (List.mem_cons_of_mem _ hmem)) htail
      exact ⟨rfl, rfl⟩

/-- Once the clock has been enabled, the sequence has been started and the wait for lock is over. -/
theorem Course.of_clockWrite (h : c.Course xs out) {before after : List Call}
    (hcalls : xs.map Prod.fst = before ++ .serve c.clockWrite :: after)
    (hfirst : .serve c.clockWrite ∉ before) :
    ∃ begun polls ended, Ran c.start begun (.ok (.ok ())) ∧ c.Ready polls ∧ Ran c.finish ended out
      ∧ xs = begun ++ polls ++ ended ∧ (begun ++ polls).map Prod.fst = before
      ∧ ended.map Prod.fst = .serve c.clockWrite :: after := by
  have hmem : .serve c.clockWrite ∈ xs.map Prod.fst := by simp [hcalls]
  cases h with
  | starting h hstop =>
    have hstart := c.clockWrite_not_mem 0
    rw [List.replicate_zero, List.append_nil] at hstart
    exact absurd (h.in_order.subset hmem) hstart
  | locking hbegun henabled h hstop =>
    rw [map_fst_append hbegun h.calls_eq] at hmem
    exact absurd hmem (c.clockWrite_not_mem _)
  | @finishing begun polls ended _ hbegun hready h =>
    have hfront := map_fst_append hbegun hready.calls_eq
    have hnone := c.clockWrite_not_mem polls.length
    rw [List.map_append, hfront] at hcalls hmem
    -- the clock is enabled after the wait, so this is the first call of the last part
    rcases List.prefix_cons_iff.mp h.in_order with hnil | ⟨rest, hended, -⟩
    · rw [hnil, List.append_nil] at hmem
      exact absurd hmem hnone
    · rw [hended] at hcalls
      obtain ⟨rfl, rfl⟩ := append_cons_inj_of_not_mem hnone hfirst hcalls
      exact ⟨begun, polls, ended, hbegun, hready, h, rfl, hfront, hended⟩

/-- **The clock is enabled only once the PLL has locked, if it is enabled.** -/
theorem Course.locked_of_clockWrite (h : c.Course xs out) {before after : List Call}
    (hcalls : xs.map Prod.fst = before ++ .serve c.clockWrite :: after)
    (hfirst : .serve c.clockWrite ∉ before) :
    c.pll.isEnabled = false ∨ ∃ earlier reply,
      xs.take before.length = earlier ++ [(.serve c.readBlock, reply)]
        ∧ .serve c.writeBlock ∈ earlier.map Prod.fst ∧ reply.result = .ok ()
        ∧ c.showsLock reply = true := by
  obtain ⟨begun, polls, ended, hbegun, hready, -, rfl, rfl, -⟩ := h.of_clockWrite hcalls hfirst
  cases henabled : c.pll.isEnabled with
  | false => exact Or.inl rfl
  | true =>
    rw [Ready, if_pos henabled] at hready
    obtain ⟨-, front, reply, rfl, -, hok, hlock⟩ := hready
    refine Or.inr ⟨begun ++ front, reply, ?_, ?_, hok, hlock⟩
    · rw [List.length_map, List.take_left, List.append_assoc]
    · rw [List.map_append, hbegun.1]
      simp [start]

theorem allOk_of_unlocked (h : ∀ x ∈ polls, c.Unlocked x) : AllOk polls :=
  fun x hx => (h x hx).2.1

theorem LockPolls.allOk_dropLast {last : Reply ε → Prop} (h : c.LockPolls polls last) :
    AllOk polls.dropLast := by
  obtain ⟨front, reply, rfl, hfront, -⟩ := h
  rw [List.dropLast_concat]
  exact allOk_of_unlocked hfront

theorem AwaitedLock.allOk_dropLast (h : c.AwaitedLock polls out) : AllOk polls.dropLast := by
  match out, h with
  | .error halt, h => exact (allOk_of_unlocked h.2.1).dropLast
  | .ok (.error (.bus e)), h => exact LockPolls.allOk_dropLast h.2
  | .ok (.error .lockTimeout), h => exact (allOk_of_unlocked h.2.2).dropLast
  | .ok (.ok ()), h => exact LockPolls.allOk_dropLast h.2

theorem Ready.allOk (h : c.Ready polls) : AllOk polls := by
  unfold Ready at h
  split at h
  · obtain ⟨-, front, reply, rfl, hfront, hok, -⟩ := h
    exact (allOk_of_unlocked hfront).append fun x hx => by rw [List.mem_singleton.mp hx]; exact hok
  · rw [h]
    exact nofun

/-- **No call is made after one that has failed.** -/
theorem Course.allOk_dropLast (h : c.Course xs out) : AllOk xs.dropLast := by
  cases h with
  | starting h => exact h.allOk_dropLast
  | locking hbegun _ h => exact hbegun.2.dropLast_append h.allOk_dropLast
  | finishing hbegun hready h =>
    exact (hbegun.2.append hready.allOk).dropLast_append h.allOk_dropLast

theorem AwaitedLock.bus_iff (h : c.AwaitedLock polls out) {e : ε} :
    out = .ok (.error (.bus e)) ↔ FailedLast polls e := by
  match out, h with
  | .error halt, h => exact iff_of_false nofun ((allOk_of_unlocked h.2.1).not_failedLast e)
  | .ok (.error (.bus e')), ⟨_, front, reply, hsplit, _, hfailed⟩ =>
    rw [hsplit, failedLast_concat, hfailed]
    simp
  | .ok (.error .lockTimeout), h =>
    exact iff_of_false nofun ((allOk_of_unlocked h.2.2).not_failedLast e)
  | .ok (.ok ()), ⟨_, front, reply, hsplit, _, hok, _⟩ =>
    rw [hsplit, failedLast_concat, hok]
    simp

/-- **A bus error is the error of the last call.** -/
theorem Course.bus_iff (h : c.Course xs out) {e : ε} :
    out = .ok (.error (.bus e)) ↔ FailedLast xs e := by
  cases h with
  | starting h => exact h.bus_iff
  | locking hbegun _ h => rw [hbegun.2.failedLast_append, h.bus_iff]
  | finishing hbegun hready h =>
    rw [(hbegun.2.append hready.allOk).failedLast_append, h.bus_iff]

/-- **Bringing up succeeds if and only if the whole sequence does.** -/
theorem Course.ok_iff (h : c.Course xs out) (hsound : ∀ cause, out ≠ .error (.fault cause)) :
    out = .ok (.ok ()) ↔ (∃ polls, (polls = 0 ↔ c.pll.isEnabled = false)
      ∧ xs.map Prod.fst = (c.sequence polls).map .serve) ∧ AllOk xs := by
  constructor
  · rintro rfl
    cases h with
    | starting _ hstop => exact absurd rfl hstop
    | locking _ _ _ hstop => exact absurd rfl hstop
    | @finishing begun polls ended _ hbegun hready h =>
      refine ⟨⟨polls.length, hready.length_eq_zero_iff, ?_⟩,
        (hbegun.2.append hready.allOk).append h.2⟩
      rw [List.map_append, map_fst_append hbegun hready.calls_eq, h.1, ← List.map_append, sequence]
  · rintro ⟨⟨count, -, hcalls⟩, hok⟩
    rw [sequence, List.map_append, finish, List.map_cons] at hcalls
    obtain ⟨begun, polls, ended, -, -, hended, rfl, -, hall⟩ :=
      h.of_clockWrite hcalls (c.clockWrite_not_mem count)
    exact hended.eq_ok hsound hall fun x hx => hok x (List.mem_append_right _ hx)

/-- What is said before the polls has two calls. -/
theorem drop_two {begun : List (Call × Reply ε)} (h : Ran c.start begun (.ok (.ok ())))
    (more : List (Call × Reply ε)) : (begun ++ more).drop 2 = more := by
  have hlen : begun.length = 2 := by simpa [start] using congrArg List.length h.1
  rw [← hlen, List.drop_left]

/-- What is said if the PLL does not lock: as many polls as the policy allows, none with lock. -/
def NeverLocked (c : Config) (xs : List (Call × Reply ε)) : Prop :=
  c.pll.isEnabled = true ∧ ∃ most, c.lockWait.maxPolls = some most
    ∧ xs.map Prod.fst = (c.start ++ List.replicate (most + 1) c.readBlock).map .serve
    ∧ AllOk xs ∧ ∀ x ∈ xs.drop 2, c.showsLock x.2 = false

/-- **The wait for lock runs out if and only if no poll that it allows shows lock.** -/
theorem Course.lockTimeout_iff (h : c.Course xs out)
    (hsound : ∀ cause, out ≠ .error (.fault cause)) :
    out = .ok (.error .lockTimeout) ↔ c.NeverLocked xs := by
  constructor
  · rintro rfl
    cases h with
    | starting h =>
      obtain ⟨-, _, _, _, _, -, -, herror⟩ := h
      cases herror
    | @locking begun polls _ hbegun henabled h =>
      have hcalls := map_fst_append hbegun h.calls_eq
      obtain ⟨-, hlen, hpolls⟩ := h
      obtain ⟨most, hmost, hcount⟩ := Option.map_eq_some_iff.mp hlen
      refine ⟨henabled, most, hmost, by rw [hcalls, hcount],
        hbegun.2.append (allOk_of_unlocked hpolls), ?_⟩
      rw [drop_two hbegun]
      exact fun x hx => (hpolls x hx).2.2
    | finishing _ _ h =>
      obtain ⟨-, _, _, _, _, -, -, herror⟩ := h
      cases herror
  · rintro ⟨henabled, most, hmost, hcalls, hok, hunlocked⟩
    have hlen : xs.length = most + 3 := by
      have hlen := congrArg List.length hcalls
      simp only [List.length_map, List.length_append, List.length_replicate, start,
        List.length_cons, List.length_nil] at hlen
      omega
    cases h with
    | starting h =>
      have hle := h.in_order.length_le
      simp only [List.length_map, start, List.length_cons, List.length_nil] at hle
      omega
    | @locking begun polls _ hbegun _ h hstop =>
      have hcount : polls.length = most + 1 := by
        have hdrop := congrArg List.length (drop_two hbegun polls)
        rw [List.length_drop] at hdrop
        omega
      have hpolls : AllOk polls := fun x hx => hok x (List.mem_append_right _ hx)
      match out, h, hstop with
      | .error (.fault cause), _, _ => exact absurd rfl (hsound cause)
      | .error .exhausted, h, _ => exact absurd (by rw [hmost, hcount]; rfl) (h.2.2 rfl)
      | .ok (.error (.bus e)), h, _ => exact absurd (h.bus_iff.mp rfl) (hpolls.not_failedLast e)
      | .ok (.error .lockTimeout), _, _ => rfl
      | .ok (.ok ()), _, hstop => exact absurd rfl hstop
    | @finishing begun polls ended _ hbegun hready h =>
      -- the wait for lock has ended with a poll that shows it
      rw [Ready, if_pos henabled] at hready
      obtain ⟨-, front, reply, rfl, -, -, hlock⟩ := hready
      rw [List.append_assoc, drop_two hbegun] at hunlocked
      have hnone := hunlocked (.serve c.readBlock, reply) (by simp)
      rw [hlock] at hnone
      cases hnone

variable [Log.Logger κ]

/--
**Bringing up the codec keeps to its sequence over any bus.**

Whatever the bus replies, the calls are the first ones of the sequence, with at least one poll for
lock if and only if the configured PLL is enabled; all are at the codec's address and at 16-bit
sub-addresses counted from `registerBase`. The core clock is enabled only with the PLL off or after
a poll that shows lock. No call is made after one that fails, and a bus error is the error of the
last call. As long as the logger takes its records, bringing up succeeds if and only if the whole
sequence does, and it reports a lock timeout if and only if all polls that the policy allows have
been made and none shows lock. It goes on for as long as it may make calls.
-/
theorem bringUp_sequence (c : Config) (respond : σ → Call → Reply ε × σ) (script : σ) (logger : κ)
    (allowance : Nat) :
    let run := (c.bringUp : ExceptT (BringUpError ε) (Proc (ScriptedMaster σ ε × κ)) Unit).run
      (.ofScript respond script, logger) allowance
    let xs := ScriptedMaster.exchanges respond script (calls run.events)
    (∃ polls, (polls = 0 ↔ c.pll.isEnabled = false)
        ∧ (∀ most, c.lockWait.maxPolls = some most → polls ≤ most + 1)
        ∧ calls run.events <+: (c.sequence polls).map .serve)
      ∧ (∀ before after, calls run.events = before ++ .serve c.clockWrite :: after →
        .serve c.clockWrite ∉ before →
          c.pll.isEnabled = false ∨ ∃ earlier reply,
            xs.take before.length = earlier ++ [(.serve c.readBlock, reply)]
              ∧ .serve c.writeBlock ∈ earlier.map Prod.fst ∧ reply.result = .ok ()
              ∧ c.showsLock reply = true)
      ∧ AllOk xs.dropLast
      ∧ (∀ e, run.outcome = .ok (.error (.bus e)) ↔ FailedLast xs e)
      ∧ ((∀ cause, run.outcome ≠ .error (.fault cause)) →
        (run.outcome = .ok (.ok ()) ↔ (∃ polls, (polls = 0 ↔ c.pll.isEnabled = false)
            ∧ calls run.events = (c.sequence polls).map .serve) ∧ AllOk xs)
          ∧ (run.outcome = .ok (.error .lockTimeout) ↔ c.NeverLocked xs))
      ∧ (run.outcome = .error .exhausted → (calls run.events).length = allowance) := by
  intro run xs
  have htells := c.talks_bringUp (ScriptedMaster.ofScript respond script, logger) allowance
  have hcourse : c.Course xs run.outcome := htells.post
  have hcalls : calls run.events = xs.map Prod.fst :=
    (ScriptedMaster.map_fst_exchanges respond script _).symm
  rw [hcalls]
  refine ⟨hcourse.in_order, fun before after => hcourse.locked_of_clockWrite,
    hcourse.allOk_dropLast, fun e => hcourse.bus_iff,
    fun hsound => ⟨hcourse.ok_iff hsound, hcourse.lockTimeout_iff hsound⟩, fun hexhausted => ?_⟩
  have hleft : run.left = 0 := htells.exhausted hexhausted
  have hspent : (calls run.events).length + run.left = allowance := htells.left
  rw [← hcalls]
  omega

/-- The PLL locks at the second poll, and the clock is enabled after it. -/
theorem locked_at_second_poll :
    let c : Config := { pll := .integer 4 0, lockWait := .bounded 1 1, table := [] }
    let replies : List (Reply Sim.ScriptedError) :=
      [⟨.ok (), []⟩, ⟨.ok (), []⟩, ⟨.ok (), []⟩, ⟨.ok (), [0, 0, 0, 0, 0, 3]⟩]
    let run := (c.bringUp : ExceptT (BringUpError Sim.ScriptedError)
      (Proc (ScriptedMaster (List (Reply Sim.ScriptedError)) Sim.ScriptedError × Unit)) Unit).run
        (.ofReplies replies, ()) 5
    let xs := ScriptedMaster.exchanges ScriptedMaster.nextReply replies (calls run.events)
    run.outcome = .ok (.ok ()) ∧ calls run.events = (c.sequence 2).map .serve ∧ AllOk xs
      ∧ ∃ earlier reply, xs.take 4 = earlier ++ [(.serve c.readBlock, reply)]
        ∧ c.showsLock reply = true := by
  intro c replies run xs
  have hok : run.outcome = .ok (.ok ()) := by cbv
  have hcalls : calls run.events = (c.sequence 2).map .serve := by cbv
  obtain ⟨-, hclock, -, -, hanswered, -⟩ :=
    c.bringUp_sequence ScriptedMaster.nextReply replies () 5
  have hsound : ∀ cause, run.outcome ≠ .error (.fault cause) := by simp [hok]
  obtain ⟨-, hall⟩ := (hanswered hsound).1.mp hok
  have hfirst : .serve c.clockWrite ∉ (c.start ++ List.replicate 2 c.readBlock).map Call.serve :=
    c.clockWrite_not_mem 2
  have hsplit : calls run.events = (c.start ++ List.replicate 2 c.readBlock).map Call.serve
      ++ .serve c.clockWrite :: [] := hcalls
  rcases hclock _ [] hsplit hfirst with hdisabled | ⟨earlier, reply, htake, -, -, hlock⟩
  · exact absurd hdisabled (by decide)
  · exact ⟨hok, hcalls, hall, earlier, reply, htake, hlock⟩

end Config

end TwoWire.Codec
