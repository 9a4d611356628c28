import TwoWire.Log.Note
import TwoWire.Proofs.Ensures

/-!
# What runs uphold, and whom their faults blame

A run may end in a fault. `Proc.Blames flaw p` says that only a fault of some kind ends a run of
`p`; with an empty kind, no fault does. `Proc.Upholds rel flaw p` adds what `Proc.Always rel p` says
of every run, however it ends. Both have a rule for every way of building procedures, and `Upholds`
has one for each step of a procedure that can fail.
-/

namespace TwoWire

namespace Proc

variable {σ τ α β ε : Type} {flaw : Fault → Prop}

/-! ## Faults -/

/-- Only a fault that is a `flaw` ends a run of the procedure. -/
def Blames (flaw : Fault → Prop) (p : Proc σ α) : Prop :=
  ∀ s n cause, (p s n).outcome = .error (.fault cause) → flaw cause

section Blames

variable {p : Proc σ α}

theorem blames_of_ok (h : ∀ s n, ∃ a, (p s n).outcome = .ok a) : p.Blames flaw := by
  intro s n cause hfault
  obtain ⟨a, hok⟩ := h s n
  rw [hok] at hfault
  cases hfault

theorem blames_pure (a : α) : (pure a : Proc σ α).Blames flaw :=
  blames_of_ok fun _ _ => ⟨a, rfl⟩

theorem blames_get : (get : Proc σ σ).Blames flaw := blames_of_ok fun s _ => ⟨s, rfl⟩

theorem blames_modify (f : σ → σ) : (modify f).Blames flaw := blames_of_ok fun _ _ => ⟨(), rfl⟩

theorem blames_allowance : (allowance : Proc σ Nat).Blames flaw :=
  blames_of_ok fun _ n => ⟨n, rfl⟩

theorem blames_sleep (part : Part) (us : Nat) : (sleep part us : Proc σ Unit).Blames flaw :=
  blames_of_ok fun _ _ => ⟨(), rfl⟩

theorem blames_exhausted : (halt .exhausted : Proc σ α).Blames flaw := by
  intro s n cause hfault
  cases hfault

theorem Blames.bind {f : α → Proc σ β} (hp : p.Blames flaw) (hf : ∀ a, (f a).Blames flaw) :
    (p >>= f).Blames flaw := by
  intro s n cause hfault
  cases h : (p s n).outcome with
  | error halt =>
    rw [bind_of_halt h] at hfault
    obtain rfl : halt = .fault cause := Except.error.inj hfault
    exact hp s n cause h
  | ok a =>
    rw [bind_of_ok h] at hfault
    exact hf a _ _ cause hfault

theorem Blames.map {f : α → β} (hp : p.Blames flaw) : (f <$> p).Blames flaw := by
  rw [map_eq_pure_bind]
  exact hp.bind fun a => blames_pure (f a)

theorem Blames.zoom {get : σ → τ} {set : τ → σ → σ} {q : Proc τ α} (hq : q.Blames flaw) :
    (q.zoom get set).Blames flaw :=
  fun s n => hq (get s) n

theorem Blames.withLocal {value : τ} {q : Proc (σ × τ) α} (hq : q.Blames flaw) :
    (q.withLocal value).Blames flaw := by
  intro s n cause hfault
  cases h : (q (s, value) n).outcome with
  | error halt =>
    obtain rfl : halt = .fault cause := by simpa [Proc.withLocal, h, Except.map] using hfault
    exact hq (s, value) n cause h
  | ok a => simp [Proc.withLocal, h, Except.map] at hfault

end Blames

/-! ## Relations and faults -/

/-- However the procedure ends, `rel` holds of the run, and a fault that ends it is a `flaw`. -/
structure Upholds (rel : σ → List Event → σ → Prop) (flaw : Fault → Prop) (p : Proc σ α) :
    Prop where
  always : Always rel p
  blames : p.Blames flaw

section Upholds

variable {rel : σ → List Event → σ → Prop} {p : Proc σ α}

theorem upholds_pure (hr : Chained rel) (a : α) : Upholds rel flaw (pure a : Proc σ α) :=
  ⟨always_pure hr a, blames_pure a⟩

theorem upholds_get (hr : Chained rel) : Upholds rel flaw (get : Proc σ σ) :=
  ⟨always_get hr, blames_get⟩

theorem upholds_modify {f : σ → σ} (h : ∀ s, rel s [] (f s)) : Upholds rel flaw (modify f) :=
  ⟨fun s _ => h s, blames_modify f⟩

theorem Upholds.bind (hr : Chained rel) {f : α → Proc σ β} (hp : Upholds rel flaw p)
    (hf : ∀ a, Upholds rel flaw (f a)) : Upholds rel flaw (p >>= f) :=
  ⟨hp.always.bind hr fun a => (hf a).always, hp.blames.bind fun a => (hf a).blames⟩

theorem Upholds.map {f : α → β} (hp : Upholds rel flaw p) : Upholds rel flaw (f <$> p) :=
  ⟨hp.always.map, hp.blames.map⟩

theorem Upholds.zoom {get : σ → τ} {set : τ → σ → σ} {rel' : τ → List Event → τ → Prop}
    {q : Proc τ α} (hq : Upholds rel' flaw q)
    (himp : ∀ s ev t, rel' (get s) ev t → rel s ev (set t s)) :
    Upholds rel flaw (q.zoom get set) :=
  ⟨hq.always.zoom himp, hq.blames.zoom⟩

/-- The second step of a procedure that can fail is made only if the first one succeeded. -/
theorem Upholds.bind_except (hr : Chained rel) {q : ExceptT ε (Proc σ) α}
    {f : α → ExceptT ε (Proc σ) β} (hq : Upholds rel flaw q.run)
    (hf : ∀ a, Upholds rel flaw (f a).run) : Upholds rel flaw (q >>= f).run := by
  rw [ExceptT.run_bind]
  refine hq.bind hr fun result => ?_
  cases result with
  | ok a => exact hf a
  | error error => exact upholds_pure hr _

end Upholds

end Proc

/-! ## Records -/

section Note

variable {κ : Type} [Log.Logger κ] {flaw : Fault → Prop}

/-- The fault is one that some logger of this kind gives on some record. -/
def Log.Stalls (κ : Type) [Log.Logger κ] (cause : Fault) : Prop :=
  ∃ level pieces, ∃ logger : κ, Log.Logger.record level pieces logger = .error cause

/-- A record shows, and only the logger can fault on it. -/
theorem Log.upholds_note (hlogger : ∀ cause, Log.Stalls κ cause → flaw cause) (part : Part)
    (level : Log.Level) (pieces : List String) :
    Proc.Upholds (fun (_ : κ) ev _ => ev = [.log part level (String.join pieces)]) flaw
      (Log.note part level pieces) := by
  refine ⟨fun logger n => ?_, fun logger n cause hfault => ?_⟩
  · unfold Log.note
    cases Log.Logger.record level pieces logger <;> rfl
  · unfold Log.note at hfault
    cases hrecord : Log.Logger.record level pieces logger with
    | ok next =>
      rw [hrecord] at hfault
      cases hfault
    | error fault =>
      rw [hrecord] at hfault
      obtain rfl : fault = cause := Halt.fault.inj (Except.error.inj hfault)
      exact hlogger fault ⟨level, pieces, logger, hrecord⟩

end Note

/-! ## Polling -/

section Poll

variable {σ ε : Type} {flaw : Fault → Prop} {ready : Proc σ (Except ε Bool)}

theorem Blames.pollOr {next : Proc σ (Except ε Bool)} (hready : ready.Blames flaw)
    (hnext : next.Blames flaw) : (pollOr ready next).Blames flaw := by
  refine hready.bind fun settled => ?_
  match settled with
  | .ok false => exact hnext
  | .ok true => exact Proc.blames_pure _
  | .error _ => exact Proc.blames_pure _

/-- Polling faults only where a poll does: running out of allowance is no fault. -/
theorem Blames.pollUntil (hready : ready.Blames flaw) (part : Part) (policy : WaitPolicy) :
    (pollUntil part policy ready).Blames flaw := by
  refine Blames.pollOr hready ?_
  cases policy.maxPolls with
  | none =>
    refine Proc.blames_allowance.bind fun fuel => ?_
    induction fuel with
    | zero => exact Proc.blames_exhausted
    | succ fuel ih => exact Blames.pollOr hready ih
  | some count =>
    show (pollTimes part policy.pause ready count).Blames flaw
    induction count with
    | zero => exact Proc.blames_pure _
    | succ count ih => exact (Proc.blames_sleep part _).bind fun _ => Blames.pollOr hready ih

theorem Upholds.pollUntil {rel : σ → List Event → σ → Prop} (hr : Proc.Chained rel)
    (hready : Proc.Upholds rel flaw ready) {part : Part} {policy : WaitPolicy}
    (hpause : ∀ s, rel s ((sleepParts policy.pause).map (.sleep part)) s) :
    Proc.Upholds rel flaw (pollUntil part policy ready) :=
  ⟨Always.pollUntil hr hready.always fun s _ => hpause s,
    Blames.pollUntil hready.blames part policy⟩

end Poll

end TwoWire
