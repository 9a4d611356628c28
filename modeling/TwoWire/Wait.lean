/-!
# Wait policies

How long a poll loop may go on, and how a sleep of some microseconds is made of sleeps that fit a
32-bit count of nanoseconds.
-/

namespace TwoWire

/-- How long a poll loop may go on. Times are in microseconds. -/
inductive WaitPolicy
  /-- Until the condition holds. -/
  | infinite
  /-- Polls `interval` apart until `timeout` has passed. -/
  | bounded (timeout interval : UInt32)
  deriving DecidableEq, Repr

namespace WaitPolicy

/-- Microseconds slept between two polls; a zero interval counts as one. -/
def pause : WaitPolicy → Nat
  | infinite => 1
  | bounded _ interval => max interval.toNat 1

/-- Polls allowed after the first one: as many pauses as cover the timeout. -/
def maxPolls : WaitPolicy → Option Nat
  | infinite => none
  | bounded timeout interval =>
    let pause := max interval.toNat 1
    some ((timeout.toNat + (pause - 1)) / pause)

end WaitPolicy

/-! ## Sleeping -/

/-- Longest single sleep, in microseconds. -/
def maxSleep : Nat := 4294967

/--
The single sleeps, in nanoseconds, that make up a sleep of `us` microseconds: longest ones as long
as more than one of them is needed, then the rest.
-/
def sleepParts (us : Nat) : List Nat :=
  let full := (us - 1) / maxSleep
  List.replicate full (maxSleep * 1000) ++ [(us - full * maxSleep) * 1000]

/-- The parts add up to the whole sleep. -/
theorem foldr_add_sleepParts (us : Nat) : (sleepParts us).foldr (· + ·) 0 = us * 1000 := by
  rw [← List.sum_eq_foldr]
  have h : (us - 1) / maxSleep * maxSleep ≤ us :=
    Nat.le_trans (Nat.div_mul_le_self _ _) (Nat.sub_le _ _)
  unfold sleepParts
  generalize maxSleep = m at h
  generalize (us - 1) / m = full at h
  rw [List.sum_append, List.sum_replicate_nat, List.sum_singleton, ← Nat.mul_assoc,
    ← Nat.add_mul, Nat.add_sub_cancel' h]

/-- Each part fits 32 bits. -/
theorem lt_of_mem_sleepParts {us ns : Nat} (h : ns ∈ sleepParts us) : ns < 1 <<< 32 := by
  have hm : us - 1 < (us - 1) / maxSleep * maxSleep + maxSleep :=
    Nat.lt_div_mul_add (by decide)
  simp only [sleepParts, List.mem_append, List.mem_replicate, List.mem_singleton] at h
  rcases h with ⟨_, rfl⟩ | rfl
  · decide
  · have hr : us - (us - 1) / maxSleep * maxSleep ≤ maxSleep := by omega
    have hp : maxSleep * 1000 < 1 <<< 32 := by decide
    exact Nat.lt_of_le_of_lt (Nat.mul_le_mul_right 1000 hr) hp

end TwoWire
