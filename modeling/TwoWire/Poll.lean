import TwoWire.Proc
import TwoWire.Wait

/-!
# Polling

`pollUntil` polls a condition until it holds, fails, or the policy runs out. The first poll is
made at once. Without a bound, polls follow each other; otherwise each further poll follows a
pause, and there are as many of them as the policy allows.

A loop without bound recurses on the allowance that is left after its first poll. A poll that
makes an access takes at least one from it, so such a loop never ends before the allowance does.
-/

namespace TwoWire

variable {σ ε : Type}

/-- Sleeps some microseconds. -/
def sleep (part : Part) (us : Nat) : Proc σ Unit :=
  Proc.emit ((sleepParts us).map (Event.sleep part))

/-- Polls once, and goes on if the condition does not hold. -/
def pollOr (ready next : Proc σ (Except ε Bool)) : Proc σ (Except ε Bool) := do
  match ← ready with
  | .ok false => next
  | settled => pure settled

/-- Polls again and again, at most `fuel` times. -/
def pollOn (ready : Proc σ (Except ε Bool)) : Nat → Proc σ (Except ε Bool)
  | 0 => Proc.halt .exhausted
  | fuel + 1 => pollOr ready (pollOn ready fuel)

/-- Pauses and polls, `count` times. -/
def pollTimes (part : Part) (pause : Nat) (ready : Proc σ (Except ε Bool)) :
    Nat → Proc σ (Except ε Bool)
  | 0 => pure (.ok false)
  | count + 1 => do
    sleep part pause
    pollOr ready (pollTimes part pause ready count)

/-- Polls until the condition holds or fails; answers `false` if the policy runs out first. -/
def pollUntil (part : Part) (policy : WaitPolicy) (ready : Proc σ (Except ε Bool)) :
    Proc σ (Except ε Bool) :=
  pollOr ready <|
    match policy.maxPolls with
    | none => do pollOn ready (← Proc.allowance)
    | some count => pollTimes part policy.pause ready count

end TwoWire
