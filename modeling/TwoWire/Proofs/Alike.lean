import TwoWire.Proofs.Ensures

/-!
# Runs that look alike

`Proc.Alike R p q` compares two procedures whose states may even be of different types: from states
related by `R` and with the same allowance, both show the same events and come to the same outcome,
with the same allowance left and in related states again. There is a rule for every way of building
procedures. `alike_get_bind` is the one for asking for the state: what is done then may differ as
much as the states do, and has to look alike by itself.
-/

namespace TwoWire

variable {σ σ' τ τ' α β ε : Type}

/-- The second run shows what the first one does and ends as that does, in a related state. -/
structure Exec.Alike (R : σ → σ' → Prop) (one : Exec σ α) (other : Exec σ' α) : Prop where
  events : other.events = one.events
  outcome : other.outcome = one.outcome
  state : R one.state other.state
  left : other.left = one.left

namespace Proc

variable {R : σ → σ' → Prop}

/-- From related states, the two procedures cannot be told apart. -/
def Alike (R : σ → σ' → Prop) (p : Proc σ α) (q : Proc σ' α) : Prop :=
  ∀ ⦃s s'⦄, R s s' → ∀ n, (p s n).Alike R (q s' n)

/-- Both halves of two pairs are related. -/
def Both (R : σ → σ' → Prop) (S : τ → τ' → Prop) (s : σ × τ) (s' : σ' × τ') : Prop :=
  R s.1 s'.1 ∧ S s.2 s'.2

/-- From the same state, a procedure does the same. -/
theorem alike_self (p : Proc σ α) : Alike Eq p p := by
  rintro s _ rfl n
  exact ⟨rfl, rfl, rfl, rfl⟩

theorem alike_pure (a : α) : Alike R (pure a) (pure a) := by
  intro s s' h n
  exact ⟨rfl, rfl, h, rfl⟩

theorem alike_modify {f : σ → σ} {f' : σ' → σ'} (h : ∀ s s', R s s' → R (f s) (f' s')) :
    Alike R (modify f) (modify f') := by
  intro s s' hs n
  exact ⟨rfl, rfl, h s s' hs, rfl⟩

theorem alike_halt (h : Halt) : Alike R (halt h : Proc σ α) (halt h) := by
  intro s s' hs n
  exact ⟨rfl, rfl, hs, rfl⟩

theorem alike_emit (events : List Event) : Alike R (emit events) (emit events) := by
  intro s s' h n
  exact ⟨rfl, rfl, h, rfl⟩

theorem alike_allowance : Alike R (allowance : Proc σ Nat) allowance := by
  intro s s' h n
  exact ⟨rfl, rfl, h, rfl⟩

section Build

variable {p : Proc σ α} {p' : Proc σ' α}

theorem Alike.bind {f : α → Proc σ β} {f' : α → Proc σ' β} (hp : Alike R p p')
    (hf : ∀ a, Alike R (f a) (f' a)) : Alike R (p >>= f) (p' >>= f') := by
  intro s s' h n
  obtain ⟨hevents, houtcome, hstate, hleft⟩ := hp h n
  cases hout : (p s n).outcome with
  | error halt =>
    rw [bind_of_halt hout, bind_of_halt (houtcome.trans hout)]
    exact ⟨hevents, rfl, hstate, hleft⟩
  | ok a =>
    obtain ⟨hevents', houtcome', hstate', hleft'⟩ := hf a hstate (p s n).left
    rw [bind_of_ok hout, bind_of_ok (houtcome.trans hout), hleft]
    refine ⟨?_, houtcome', hstate', hleft'⟩
    rw [hevents, hevents']

theorem Alike.map (hp : Alike R p p') (f : α → β) : Alike R (f <$> p) (f <$> p') := by
  rw [map_eq_pure_bind, map_eq_pure_bind]
  exact hp.bind fun a => alike_pure (f a)

/-- What follows the question for the state may depend on it. -/
theorem alike_get_bind {f : σ → Proc σ α} {f' : σ' → Proc σ' α}
    (h : ∀ s s', R s s' → Alike R (f s) (f' s')) : Alike R (get >>= f) (get >>= f') := by
  intro s s' hs n
  rw [get_bind_apply, get_bind_apply]
  exact h s s' hs hs n

theorem Alike.zoom {S : τ → τ' → Prop} {get : σ → τ} {set : τ → σ → σ} {get' : σ' → τ'}
    {set' : τ' → σ' → σ'} {q : Proc τ α} {q' : Proc τ' α} (hq : Alike S q q')
    (hget : ∀ s s', R s s' → S (get s) (get' s'))
    (hset : ∀ s s' t t', R s s' → S t t' → R (set t s) (set' t' s')) :
    Alike R (q.zoom get set) (q'.zoom get' set') := by
  intro s s' h n
  obtain ⟨hevents, houtcome, hstate, hleft⟩ := hq (hget s s' h) n
  exact ⟨hevents, houtcome, hset s s' _ _ h hstate, hleft⟩

theorem Alike.onFst {S : τ → τ' → Prop} (hp : Alike R p p') :
    Alike (Both R S) (p.onFst : Proc (σ × τ) α) (p'.onFst : Proc (σ' × τ') α) :=
  hp.zoom (fun _ _ h => h.1) fun _ _ _ _ h hstate => ⟨hstate, h.2⟩

theorem Alike.onSnd {S : τ → τ' → Prop} (hp : Alike R p p') :
    Alike (Both S R) (p.onSnd : Proc (τ × σ) α) (p'.onSnd : Proc (τ' × σ') α) :=
  hp.zoom (fun _ _ h => h.2) fun _ _ _ _ h hstate => ⟨h.1, hstate⟩

/-- A value beside the state is the same on both sides. -/
theorem Alike.withLocal {value : τ} {q : Proc (σ × τ) α} {q' : Proc (σ' × τ) α}
    (hq : Alike (Both R Eq) q q') : Alike R (q.withLocal value) (q'.withLocal value) := by
  intro s s' h n
  have hpair : Both R Eq (s, value) (s', value) := ⟨h, rfl⟩
  obtain ⟨hevents, houtcome, ⟨hstate, hvalue⟩, hleft⟩ := hq hpair n
  refine ⟨hevents, ?_, hstate, hleft⟩
  simp only [Proc.withLocal, houtcome, hvalue]

/-- The second step of a procedure that can fail. -/
theorem Alike.bind_except {q : ExceptT ε (Proc σ) α} {q' : ExceptT ε (Proc σ') α}
    {f : α → ExceptT ε (Proc σ) β} {f' : α → ExceptT ε (Proc σ') β} (hq : Alike R q.run q'.run)
    (hf : ∀ a, Alike R (f a).run (f' a).run) : Alike R (q >>= f).run (q' >>= f').run := by
  rw [ExceptT.run_bind, ExceptT.run_bind]
  refine hq.bind fun result => ?_
  cases result with
  | ok a => exact hf a
  | error error => exact alike_pure _

end Build

end Proc

/-! ## Polling -/

section Poll

open Proc (Alike)

variable {R : σ → σ' → Prop} {ready : Proc σ (Except ε Bool)} {ready' : Proc σ' (Except ε Bool)}

theorem Proc.Alike.pollOr {next : Proc σ (Except ε Bool)} {next' : Proc σ' (Except ε Bool)}
    (hready : Alike R ready ready') (hnext : Alike R next next') :
    Alike R (pollOr ready next) (pollOr ready' next') := by
  refine hready.bind fun settled => ?_
  match settled with
  | .ok false => exact hnext
  | .ok true => exact Proc.alike_pure _
  | .error _ => exact Proc.alike_pure _

/-- If every poll looks alike, then so does polling. -/
theorem Proc.Alike.pollUntil (hready : Alike R ready ready') (part : Part) (policy : WaitPolicy) :
    Alike R (pollUntil part policy ready) (pollUntil part policy ready') := by
  refine hready.pollOr ?_
  cases policy.maxPolls with
  | none =>
    -- Without a bound the allowance is the fuel; both sides have the same left.
    refine Proc.alike_allowance.bind fun fuel => ?_
    induction fuel with
    | zero => exact Proc.alike_halt _
    | succ fuel ih => exact hready.pollOr ih
  | some count =>
    show Alike R (pollTimes part policy.pause ready count)
      (pollTimes part policy.pause ready' count)
    induction count with
    | zero => exact Proc.alike_pure _
    | succ count ih => exact (Proc.alike_emit _).bind fun _ => hready.pollOr ih

end Poll

end TwoWire
