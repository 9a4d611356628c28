import TwoWire.Log.Note
import TwoWire.Proofs.Ensures
import TwoWire.Proofs.Trace

/-!
# What a procedure spends

`Proc.Spends flaw p s limit post` bounds every run of `p` from `s`, however it ends. The run makes
at most `limit` accesses. An answer leaves of the allowance what the accesses did not take, and the
postcondition holds of their number, the answer and the state left. The run is out of allowance only
if it was given less than the limit, and it meets a fault only if `flaw` holds. So with an allowance
of `limit`, and with surroundings that have no flaw, there is an answer (`Spends.exists_answer`).

There is a rule for every way of building procedures; the one for polling under a bounded policy
charges one poll more than the policy allows after the first.
-/

namespace TwoWire

namespace Proc

open Event

variable {σ τ α β : Type} {flaw : Prop}

/-- The procedure makes at most `limit` accesses, and is cut short only by less allowance. -/
def Spends (flaw : Prop) (p : Proc σ α) (s : σ) (limit : Nat) (post : Nat → α → σ → Prop) : Prop :=
  ∀ n, (accesses (p s n).events).length ≤ limit ∧
    match (p s n).outcome with
    | .ok a => (p s n).left + (accesses (p s n).events).length = n
      ∧ post (accesses (p s n).events).length a (p s n).state
    | .error .exhausted => n < limit
    | .error (.fault _) => flaw

section Spends

variable {s : σ} {p : Proc σ α} {limit : Nat} {post : Nat → α → σ → Prop}

theorem Spends.length_le (h : p.Spends flaw s limit post) (n : Nat) :
    (accesses (p s n).events).length ≤ limit := (h n).1

theorem Spends.of_ok (h : p.Spends flaw s limit post) {n : Nat} {a : α}
    (hok : (p s n).outcome = .ok a) :
    (p s n).left + (accesses (p s n).events).length = n
      ∧ post (accesses (p s n).events).length a (p s n).state := by
  have hend := (h n).2
  rw [hok] at hend
  exact hend

theorem Spends.ne_exhausted (h : p.Spends flaw s limit post) {n : Nat} (hn : limit ≤ n) :
    (p s n).outcome ≠ .error .exhausted := by
  intro hout
  have hend := (h n).2
  rw [hout] at hend
  have hlt : n < limit := hend
  omega

theorem Spends.ne_fault (h : p.Spends flaw s limit post) (hsound : ¬flaw) (n : Nat)
    (cause : Fault) : (p s n).outcome ≠ .error (.fault cause) := by
  intro hout
  have hend := (h n).2
  rw [hout] at hend
  exact hsound hend

/-- With enough to spend, and nothing wrong with the surroundings, there is an answer. -/
theorem Spends.exists_answer (h : p.Spends flaw s limit post) (hsound : ¬flaw) {n : Nat}
    (hn : limit ≤ n) : ∃ a, (p s n).outcome = .ok a := by
  match hout : (p s n).outcome with
  | .ok a => exact ⟨a, rfl⟩
  | .error .exhausted => exact absurd hout (h.ne_exhausted hn)
  | .error (.fault cause) => exact absurd hout (h.ne_fault hsound n cause)

theorem Spends.mono {limit' : Nat} {post' : Nat → α → σ → Prop} (h : p.Spends flaw s limit post)
    (hle : limit ≤ limit')
    (himp : ∀ spent a s', spent ≤ limit → post spent a s' → post' spent a s') :
    p.Spends flaw s limit' post' := by
  intro n
  obtain ⟨hbound, hend⟩ := h n
  refine ⟨Nat.le_trans hbound hle, ?_⟩
  match hout : (p s n).outcome with
  | .ok a =>
    rw [hout] at hend
    exact ⟨hend.1, himp _ _ _ hbound hend.2⟩
  | .error .exhausted =>
    rw [hout] at hend
    exact Nat.lt_of_lt_of_le hend hle
  | .error (.fault cause) =>
    rw [hout] at hend
    exact hend

/-- What holds of every answer holds of one that the accesses are counted of. -/
theorem Spends.and_ensures {shows : List Event → α → σ → Prop} (h : p.Spends flaw s limit post)
    (h' : p.Ensures s shows) :
    p.Spends flaw s limit fun spent a s' => post spent a s' ∧ ∃ ev, shows ev a s' := by
  intro n
  obtain ⟨hbound, hend⟩ := h n
  refine ⟨hbound, ?_⟩
  match hout : (p s n).outcome with
  | .ok a =>
    rw [hout] at hend
    exact ⟨hend.1, hend.2, _, h' n a hout⟩
  | .error .exhausted =>
    rw [hout] at hend
    exact hend
  | .error (.fault cause) =>
    rw [hout] at hend
    exact hend

theorem spends_pure {a : α} (h : post 0 a s) : (pure a : Proc σ α).Spends flaw s limit post :=
  fun _ => ⟨Nat.zero_le _, rfl, h⟩

theorem spends_get {post : Nat → σ → σ → Prop} (h : post 0 s s) :
    (get : Proc σ σ).Spends flaw s limit post :=
  fun _ => ⟨Nat.zero_le _, rfl, h⟩

theorem spends_modify {f : σ → σ} {post : Nat → Unit → σ → Prop} (h : post 0 () (f s)) :
    (modify f).Spends flaw s limit post :=
  fun _ => ⟨Nat.zero_le _, rfl, h⟩

theorem spends_sleep {part : Part} {us : Nat} {post : Nat → Unit → σ → Prop} (h : post 0 () s) :
    (sleep part us : Proc σ Unit).Spends flaw s limit post := by
  intro n
  have hnone : (accesses (sleep part us s n).events).length = 0 := by
    show (accesses ((sleepParts us).map (.sleep part))).length = 0
    rw [accesses_sleeps]
    rfl
  rw [hnone]
  exact ⟨Nat.zero_le _, rfl, h⟩

/-- What the second procedure may spend can depend on what the first one left of a total. -/
theorem Spends.bind_within {total : Nat} {f : α → Proc σ β} {post : Nat → β → σ → Prop}
    (h : p.Spends flaw s limit fun spent a s' => spent ≤ limit → ∃ rest, spent + rest ≤ total
      ∧ (f a).Spends flaw s' rest fun more => post (spent + more))
    (hle : limit ≤ total) : (p >>= f).Spends flaw s total post := by
  intro n
  obtain ⟨hbound, hend⟩ := h n
  match hout : (p s n).outcome with
  | .error .exhausted =>
    rw [hout] at hend
    rw [bind_of_halt hout]
    exact ⟨Nat.le_trans hbound hle, Nat.lt_of_lt_of_le hend hle⟩
  | .error (.fault cause) =>
    rw [hout] at hend
    rw [bind_of_halt hout]
    exact ⟨Nat.le_trans hbound hle, hend⟩
  | .ok a =>
    rw [hout] at hend
    obtain ⟨hleft, hmid⟩ := hend
    obtain ⟨rest, hrest, hnext⟩ := hmid hbound
    obtain ⟨hbound', hend'⟩ := hnext (p s n).left
    rw [bind_of_ok hout]
    simp only [accesses_append, List.length_append]
    refine ⟨by omega, ?_⟩
    match hout' : (f a (p s n).state (p s n).left).outcome with
    | .ok b =>
      rw [hout'] at hend'
      exact ⟨by omega, hend'.2⟩
    | .error .exhausted =>
      rw [hout'] at hend'
      have hshort : (p s n).left < rest := hend'
      show n < total
      omega
    | .error (.fault cause) =>
      rw [hout'] at hend'
      exact hend'

/-- One after the other, two procedures spend what each of them may. -/
theorem Spends.bind (limit rest : Nat) {f : α → Proc σ β} {post : Nat → β → σ → Prop}
    (h : p.Spends flaw s limit fun spent a s' =>
      (f a).Spends flaw s' rest fun more => post (spent + more)) :
    (p >>= f).Spends flaw s (limit + rest) post := by
  refine Spends.bind_within (h.mono (Nat.le_refl limit) ?_) (Nat.le_add_right limit rest)
  intro spent a s' hspent hnext _
  exact ⟨rest, Nat.add_le_add_right hspent rest, hnext⟩

theorem Spends.map {f : α → β} {post : Nat → β → σ → Prop}
    (h : p.Spends flaw s limit fun spent a => post spent (f a)) :
    (f <$> p).Spends flaw s limit post := by
  have hnext : (p >>= fun a => pure (f a)).Spends flaw s (limit + 0) post :=
    Spends.bind limit 0 (h.mono (Nat.le_refl limit) fun _ _ _ _ hpost => spends_pure hpost)
  rwa [bind_pure_comp] at hnext

theorem Spends.zoom {get : σ → τ} {set : τ → σ → σ} {q : Proc τ α}
    (h : q.Spends flaw (get s) limit fun spent a t => post spent a (set t s)) :
    (q.zoom get set).Spends flaw s limit post :=
  fun n => h n

theorem Spends.withLocal {value : τ} {q : Proc (σ × τ) α} {post : Nat → α × τ → σ → Prop}
    (h : q.Spends flaw (s, value) limit fun spent a s' => post spent (a, s'.2) s'.1) :
    (q.withLocal value).Spends flaw s limit post := by
  intro n
  obtain ⟨hbound, hend⟩ := h n
  refine ⟨hbound, ?_⟩
  simp only [Proc.withLocal]
  cases hout : (q (s, value) n).outcome with
  | ok a =>
    rw [hout] at hend
    exact hend
  | error halt =>
    rw [hout] at hend
    cases halt <;> exact hend

end Spends

end Proc

/-! ## Accesses and records -/

section Accesses

open Event

variable {β κ : Type} {flaw : Prop}

theorem RegisterBlock.spends_load [RegisterBlock β] {width : Width} {offset : Nat} {block : β}
    (h : ¬flaw → ∃ result, RegisterBlock.read width offset block = .ok result) :
    (RegisterBlock.load width offset).Spends flaw block 1 fun spent _ _ => spent = 1 := by
  intro n
  cases n with
  | zero => exact ⟨Nat.zero_le 1, Nat.zero_lt_one⟩
  | succ n =>
    simp only [RegisterBlock.load]
    cases hread : RegisterBlock.read width offset block with
    | ok result => exact ⟨Nat.le_refl 1, rfl, rfl⟩
    | error fault =>
      refine ⟨Nat.zero_le 1, ?_⟩
      show flaw
      refine Classical.byContradiction fun hsound => ?_
      obtain ⟨result, hok⟩ := h hsound
      rw [hread] at hok
      cases hok

theorem RegisterBlock.spends_store [RegisterBlock β] {width : Width} {offset : Nat}
    {value : width.Value} {block : β}
    (h : ¬flaw → ∃ after, RegisterBlock.write width offset value block = .ok after) :
    (RegisterBlock.store width offset value).Spends flaw block 1 fun spent _ after =>
      spent = 1 ∧ RegisterBlock.write width offset value block = .ok after := by
  intro n
  cases n with
  | zero => exact ⟨Nat.zero_le 1, Nat.zero_lt_one⟩
  | succ n =>
    simp only [RegisterBlock.store]
    cases hwrite : RegisterBlock.write width offset value block with
    | ok after => exact ⟨Nat.le_refl 1, rfl, rfl, rfl⟩
    | error fault =>
      refine ⟨Nat.zero_le 1, ?_⟩
      show flaw
      refine Classical.byContradiction fun hsound => ?_
      obtain ⟨after, hok⟩ := h hsound
      rw [hwrite] at hok
      cases hok

theorem Log.spends_note [Log.Logger κ] {part : Part} {level : Log.Level} {pieces : List String}
    {logger : κ} (h : ¬flaw → ∃ next, Log.Logger.record level pieces logger = .ok next) :
    (Log.note part level pieces).Spends flaw logger 0 fun spent _ _ => spent = 0 := by
  intro n
  simp only [Log.note]
  cases hrecord : Log.Logger.record level pieces logger with
  | ok next => exact ⟨Nat.le_refl 0, rfl, rfl⟩
  | error fault =>
    refine ⟨Nat.le_refl 0, ?_⟩
    show flaw
    refine Classical.byContradiction fun hsound => ?_
    obtain ⟨next, hok⟩ := h hsound
    rw [hrecord] at hok
    cases hok

end Accesses

/-! ## Polling -/

section Poll

variable {σ ε : Type} {flaw : Prop} {ready : Proc σ (Except ε Bool)} {inv : σ → Prop} {cost : Nat}

theorem spends_pollOr {next : Proc σ (Except ε Bool)} {rest : Nat} {s : σ}
    (hready : ready.Spends flaw s cost fun _ _ s' => inv s')
    (hnext : ∀ s', inv s' → next.Spends flaw s' rest fun _ _ s'' => inv s'') :
    (pollOr ready next).Spends flaw s (cost + rest) fun _ _ s' => inv s' := by
  refine Proc.Spends.bind cost rest (hready.mono (Nat.le_refl cost) fun _ answer s' _ hinv => ?_)
  match answer with
  | .ok false => exact hnext s' hinv
  | .ok true => exact Proc.spends_pure hinv
  | .error _ => exact Proc.spends_pure hinv

theorem spends_pollTimes {part : Part} {pause : Nat}
    (hready : ∀ s, inv s → ready.Spends flaw s cost fun _ _ s' => inv s') (count : Nat) {s : σ}
    (hinv : inv s) :
    (pollTimes part pause ready count).Spends flaw s (count * cost) fun _ _ s' => inv s' := by
  induction count generalizing s with
  | zero => exact Proc.spends_pure hinv
  | succ count ih =>
    have hpolls : (pollOr ready (pollTimes part pause ready count)).Spends flaw s
        (cost + count * cost) fun _ _ s' => inv s' :=
      spends_pollOr (hready s hinv) fun _ hinv' => ih hinv'
    have hsum : (count + 1) * cost = 0 + (cost + count * cost) := by
      rw [Nat.succ_mul]
      omega
    rw [hsum]
    exact Proc.Spends.bind 0 (cost + count * cost) (Proc.spends_sleep hpolls)

/-- **Bounded polling spends what its polls may spend**: the first one and as many as allowed. -/
theorem spends_pollUntil (part : Part) {policy : WaitPolicy} {k : Nat}
    (hpolicy : policy.maxPolls = some k)
    (hready : ∀ s, inv s → ready.Spends flaw s cost fun _ _ s' => inv s') {s : σ} (hinv : inv s) :
    (pollUntil part policy ready).Spends flaw s ((k + 1) * cost) fun _ _ s' => inv s' := by
  have hsum : (k + 1) * cost = cost + k * cost := by
    rw [Nat.succ_mul, Nat.add_comm]
  unfold pollUntil
  rw [hpolicy, hsum]
  exact spends_pollOr (hready s hinv) fun _ hinv' => spends_pollTimes hready k hinv'

end Poll

end TwoWire
