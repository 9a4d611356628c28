import TwoWire.Event
import TwoWire.Fault

/-!
# Procedures

A procedure acts on a state of type `σ` under an allowance of accesses. Running it gives the events
in order, the answer or the reason why there is none, the state left behind, and the allowance left.
Every procedure ends: a wait without bound ends at the latest when its allowance does.

`Proc.zoom` runs a procedure on a part of a larger state.
-/

namespace TwoWire

/-- What running a procedure gave. -/
structure Exec (σ α : Type) where
  events : List Event
  outcome : Except Halt α
  state : σ
  left : Nat

/-- A procedure on a state `σ` that answers an `α`. -/
def Proc (σ α : Type) : Type := σ → Nat → Exec σ α

namespace Proc

variable {σ τ α β : Type}

/-- Runs a procedure on a state with an allowance. -/
def run (p : Proc σ α) (s : σ) (allowance : Nat) : Exec σ α := p s allowance

/-! ## Sequencing -/

protected def pure (a : α) : Proc σ α := fun s n => ⟨[], .ok a, s, n⟩

/-- Runs the second procedure where the first one left off, unless that one halted. -/
protected def bind (p : Proc σ α) (f : α → Proc σ β) : Proc σ β := fun s n =>
  let first := p s n
  match first.outcome with
  | .error halt => ⟨first.events, .error halt, first.state, first.left⟩
  | .ok a =>
    let second := f a first.state first.left
    ⟨first.events ++ second.events, second.outcome, second.state, second.left⟩

/-- Changes the answer. -/
protected def map (f : α → β) (p : Proc σ α) : Proc σ β := fun s n =>
  let inner := p s n
  ⟨inner.events, inner.outcome.map f, inner.state, inner.left⟩

instance : Monad (Proc σ) where
  pure := Proc.pure
  bind := Proc.bind
  map := Proc.map

theorem pure_apply (a : α) (s : σ) (n : Nat) : (pure a : Proc σ α) s n = ⟨[], .ok a, s, n⟩ := rfl

theorem bind_apply (p : Proc σ α) (f : α → Proc σ β) (s : σ) (n : Nat) :
    (p >>= f) s n = match (p s n).outcome with
      | .error halt => ⟨(p s n).events, .error halt, (p s n).state, (p s n).left⟩
      | .ok a =>
        let second := f a (p s n).state (p s n).left
        ⟨(p s n).events ++ second.events, second.outcome, second.state, second.left⟩ := rfl

theorem map_apply (f : α → β) (p : Proc σ α) (s : σ) (n : Nat) :
    (f <$> p) s n = ⟨(p s n).events, (p s n).outcome.map f, (p s n).state, (p s n).left⟩ := rfl

/-- A step that answered is followed by the rest. -/
theorem bind_of_ok {p : Proc σ α} {f : α → Proc σ β} {s : σ} {n : Nat} {a : α}
    (h : (p s n).outcome = .ok a) :
    (p >>= f) s n =
      ⟨(p s n).events ++ (f a (p s n).state (p s n).left).events,
        (f a (p s n).state (p s n).left).outcome,
        (f a (p s n).state (p s n).left).state,
        (f a (p s n).state (p s n).left).left⟩ := by
  rw [bind_apply, h]

/-- A step that halted is the last one. -/
theorem bind_of_halt {p : Proc σ α} {f : α → Proc σ β} {s : σ} {n : Nat} {halt : Halt}
    (h : (p s n).outcome = .error halt) :
    (p >>= f) s n = ⟨(p s n).events, .error halt, (p s n).state, (p s n).left⟩ := by
  rw [bind_apply, h]

instance : LawfulMonad (Proc σ) := LawfulMonad.mk' (Proc σ)
  (by
    intro α p
    funext s n
    rw [map_apply]
    rcases p s n with ⟨ev, _ | a, st, l⟩ <;> rfl)
  (by
    intro α β a f
    funext s n
    rw [bind_apply, pure_apply]
    simp)
  (by
    intro α β γ p f g
    funext s n
    simp only [bind_apply]
    rcases p s n with ⟨ev, _ | a, st, l⟩
    · rfl
    · simp only
      rcases f a st l with ⟨ev', _ | b, st', l'⟩
      · rfl
      · simp)
  (by intros; rfl)
  (by intros; rfl)
  (by intros; rfl)
  (by
    intro α β f p
    funext s n
    rw [bind_apply, map_apply]
    rcases p s n with ⟨ev, _ | a, st, l⟩ <;> simp [pure_apply, Except.map])

/-! ## Basic procedures -/

/-- The state. -/
def get : Proc σ σ := fun s n => ⟨[], .ok s, s, n⟩

/-- Changes the state. -/
def modify (f : σ → σ) : Proc σ Unit := fun s n => ⟨[], .ok (), f s, n⟩

/-- The allowance left. -/
def allowance : Proc σ Nat := fun s n => ⟨[], .ok n, s, n⟩

/-- Ends the run without an answer. -/
def halt (h : Halt) : Proc σ α := fun s n => ⟨[], .error h, s, n⟩

/-- Shows some events. -/
def emit (events : List Event) : Proc σ Unit := fun s n => ⟨events, .ok (), s, n⟩

/-- Takes one from the allowance; halts if nothing is left. -/
def spend : Proc σ Unit := fun s n =>
  match n with
  | 0 => ⟨[], .error .exhausted, s, 0⟩
  | n + 1 => ⟨[], .ok (), s, n⟩

/-- Runs on a part of the state. -/
def zoom (get : σ → τ) (set : τ → σ → σ) (p : Proc τ α) : Proc σ α := fun s n =>
  let inner := p (get s) n
  ⟨inner.events, inner.outcome, set inner.state s, inner.left⟩

/-- Runs on the first half of a pair. -/
def onFst (p : Proc σ α) : Proc (σ × τ) α := p.zoom Prod.fst fun s pair => (s, pair.2)

/-- Runs on the second half of a pair. -/
def onSnd (p : Proc τ α) : Proc (σ × τ) α := p.zoom Prod.snd fun t pair => (pair.1, t)

/-- Runs with a local value beside the state, and answers that value too. -/
def withLocal (value : τ) (p : Proc (σ × τ) α) : Proc σ (α × τ) := fun s n =>
  let inner := p (s, value) n
  ⟨inner.events, inner.outcome.map (·, inner.state.2), inner.state.1, inner.left⟩

end Proc

end TwoWire
