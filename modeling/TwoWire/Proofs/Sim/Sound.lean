import TwoWire.Proofs.Budget
import TwoWire.Proofs.Sim.Delivery

/-!
# The simulated controller takes what it is given

A simulated controller faults on a word for which no phase is open. The words of a leg open the
phase that they need with START, so it takes them in any state (`exists_foldlM_accept`), and it
never ends a transfer by itself: with a logger that does not either, it is `Engine.Sound`.
-/

namespace TwoWire

namespace Sim.Controller

variable {c : Controller}

theorem exists_accept_start (c : Controller) (addr : UInt8) (dir : Direction) :
    ∃ next, c.accept (.start addr dir) = .ok next ∧ match dir with
      | .write => ∃ target, next.phase = .writing target .empty
      | .read => ∃ target, next.phase = .counting target := by
  cases dir <;>
    simp [accept, openPhase, TxWord.isStart_start, TxWord.isStop_start, TxWord.payload_start_bit]

/-- While a phase is open, a payload is taken. -/
theorem exists_accept_closing (hopen : c.phase ≠ .idle) (payload : UInt8) (last : Bool) :
    ∃ next, c.accept (.closing payload last) = .ok next := by
  cases haccept : c.accept (.closing payload last) with
  | ok next => exact ⟨next, rfl⟩
  | error cause => exact absurd (accept_error_iff.mp ⟨cause, haccept⟩).2 hopen

theorem exists_foldlM_accept_ofBytes {target : UInt8} {sofar : Trail UInt8}
    (hphase : c.phase = .writing target sofar) (bytes : List UInt8) (last : Bool) :
    ∃ after, (TxWord.ofBytes bytes last).foldlM accept c = .ok after := by
  induction bytes generalizing c sofar with
  | nil => exact ⟨c, rfl⟩
  | cons byte rest ih =>
    have hopen : c.phase ≠ .idle := by
      rw [hphase]
      exact nofun
    cases rest with
    | nil =>
      obtain ⟨next, hnext⟩ := exists_accept_closing hopen byte last
      exact ⟨next, by simp [TxWord.ofBytes, hnext]⟩
    | cons second rest =>
      obtain ⟨next, hnext⟩ := exists_accept_closing hopen byte false
      obtain ⟨-, -, -, hmore⟩ := accept_closing_writing hphase hnext
      obtain ⟨after, hafter⟩ := ih (hmore rfl).1
      have hdata : c.accept (.data byte) = .ok next := hnext
      have hwords : TxWord.ofBytes (byte :: second :: rest) last
          = .data byte :: TxWord.ofBytes (second :: rest) last := rfl
      refine ⟨after, ?_⟩
      rw [hwords, List.foldlM_cons, hdata]
      exact hafter

/-- **The words of a leg are taken in any state**: START opens the phase that the others need. -/
theorem exists_foldlM_accept (leg : Leg) (addr : UInt8) (last : Bool) (c : Controller) :
    ∃ after, (leg.words addr last).foldlM accept c = .ok after := by
  cases leg with
  | write bytes =>
    obtain ⟨opened, hstart, target, hphase⟩ := c.exists_accept_start addr .write
    obtain ⟨after, hafter⟩ := exists_foldlM_accept_ofBytes hphase bytes last
    refine ⟨after, ?_⟩
    rw [Leg.words, List.foldlM_cons, hstart]
    exact hafter
  | read count =>
    obtain ⟨opened, hstart, target, hphase⟩ := c.exists_accept_start addr .read
    have hopen : opened.phase ≠ .idle := by
      rw [hphase]
      intro hidle
      cases hidle
    obtain ⟨after, hafter⟩ := exists_accept_closing hopen (UInt8.ofNat count) last
    refine ⟨after, ?_⟩
    rw [Leg.words, List.foldlM_cons, hstart]
    show List.foldlM accept opened [.closing (UInt8.ofNat count) last] = _
    rw [List.foldlM_cons, hafter]
    rfl

end Sim.Controller

namespace Engine

open Log (Logger)
open Sim (Controller)

variable {κ : Type} [Logger κ]

/-- A controller takes all that a transfer asks of it. -/
theorem sound_controller
    (hlogger : ∀ level pieces (logger : κ), ∃ next, Logger.record level pieces logger = .ok next) :
    Sound Controller κ where
  status _ := ⟨_, rfl⟩
  rxFifo c := by
    rw [Controller.read_rxFifo]
    cases c.rx.pop? with
    | none => exact ⟨_, rfl⟩
    | some popped => exact ⟨_, rfl⟩
  words leg addr last c := Controller.exists_foldlM_accept leg addr last c
  record := hlogger

end Engine

end TwoWire
