import TwoWire.Proofs.EngineTrace

/-!
# Waiting without bound

Without a bound the engine polls on until the condition holds: it neither sleeps nor gives up
(`sleepless_performAll`). `Proc.Sleepless` says so of one procedure, for every run that starts where
an invariant holds, and however that run ends.
-/

namespace TwoWire

namespace Proc

variable {σ τ α β : Type} {inv : σ → Prop}

/-- The procedure keeps the invariant and does not sleep; its answers are of a kind. -/
def Sleepless (inv : σ → Prop) (p : Proc σ α) (answer : α → Prop) : Prop :=
  ∀ s n, inv s → inv (p s n).state ∧ (∀ part ns, .sleep part ns ∉ (p s n).events)
    ∧ ∀ a, (p s n).outcome = .ok a → answer a

theorem Sleepless.mono {p : Proc σ α} {answer answer' : α → Prop} (h : p.Sleepless inv answer)
    (himp : ∀ a, answer a → answer' a) : p.Sleepless inv answer' := by
  intro s n hinv
  obtain ⟨hkept, hshown, hanswer⟩ := h s n hinv
  exact ⟨hkept, hshown, fun a hok => himp a (hanswer a hok)⟩

theorem sleepless_pure {a : α} {answer : α → Prop} (h : answer a) :
    (pure a : Proc σ α).Sleepless inv answer := by
  intro s n hinv
  refine ⟨hinv, fun part ns hmem => ?_, fun b hok => ?_⟩
  · cases hmem
  · obtain rfl : a = b := Except.ok.inj hok
    exact h

theorem sleepless_get : (get : Proc σ σ).Sleepless inv inv := by
  intro s n hinv
  refine ⟨hinv, fun part ns hmem => ?_, fun b hok => ?_⟩
  · cases hmem
  · obtain rfl : s = b := Except.ok.inj hok
    exact hinv

theorem sleepless_modify {f : σ → σ} (h : ∀ s, inv s → inv (f s)) :
    (modify f).Sleepless inv fun _ => True := by
  intro s n hinv
  refine ⟨h s hinv, fun part ns hmem => ?_, fun _ _ => trivial⟩
  cases hmem

theorem Sleepless.bind {p : Proc σ α} {f : α → Proc σ β} {mid : α → Prop} {answer : β → Prop}
    (hp : p.Sleepless inv mid) (hf : ∀ a, mid a → (f a).Sleepless inv answer) :
    (p >>= f).Sleepless inv answer := by
  intro s n hinv
  obtain ⟨hkept, hshown, hmid⟩ := hp s n hinv
  cases hout : (p s n).outcome with
  | error halt =>
    rw [bind_of_halt hout]
    refine ⟨hkept, hshown, fun b hok => ?_⟩
    cases hok
  | ok a =>
    obtain ⟨hkept', hshown', hanswer⟩ := hf a (hmid a hout) _ (p s n).left hkept
    rw [bind_of_ok hout]
    refine ⟨hkept', fun part ns hmem => ?_, hanswer⟩
    rcases List.mem_append.mp hmem with hfirst | hsecond
    · exact hshown part ns hfirst
    · exact hshown' part ns hsecond

theorem Sleepless.map {p : Proc σ α} {f : α → β} {answer : β → Prop}
    (h : p.Sleepless inv fun a => answer (f a)) : (f <$> p).Sleepless inv answer := by
  have hnext : (p >>= fun a => pure (f a)).Sleepless inv answer :=
    h.bind fun _ ha => sleepless_pure ha
  rwa [bind_pure_comp] at hnext

theorem Sleepless.zoom {get : σ → τ} {set : τ → σ → σ} {q : Proc τ α} {part : τ → Prop}
    {answer : α → Prop} (h : q.Sleepless part answer) (hget : ∀ s, inv s → part (get s))
    (hset : ∀ s t, inv s → part t → inv (set t s)) : (q.zoom get set).Sleepless inv answer := by
  intro s n hinv
  obtain ⟨hkept, hshown, hanswer⟩ := h (get s) n (hget s hinv)
  exact ⟨hset s _ hinv hkept, hshown, hanswer⟩

theorem Sleepless.withLocal {value : τ} {q : Proc (σ × τ) α} {answer : α → Prop}
    (h : q.Sleepless (fun s => inv s.1) answer) :
    (q.withLocal value).Sleepless inv fun result => answer result.1 := by
  intro s n hinv
  obtain ⟨hkept, hshown, hanswer⟩ := h (s, value) n hinv
  refine ⟨hkept, hshown, fun result hok => ?_⟩
  cases hout : (q (s, value) n).outcome with
  | error halt => simp [Proc.withLocal, hout, Except.map] at hok
  | ok a =>
    obtain rfl : (a, (q (s, value) n).state.2) = result := by
      simpa [Proc.withLocal, hout, Except.map] using hok
    exact hanswer a hout

end Proc

/-! ## Polling -/

section Poll

variable {σ ε : Type} {inv : σ → Prop} {ready : Proc σ (Except ε Bool)}

theorem sleepless_pollOr {next : Proc σ (Except ε Bool)}
    (hready : ready.Sleepless inv fun _ => True)
    (hnext : next.Sleepless inv fun settled => settled ≠ .ok false) :
    (pollOr ready next).Sleepless inv fun settled => settled ≠ .ok false := by
  refine hready.bind fun settled _ => ?_
  match settled with
  | .ok false => exact hnext
  | .ok true => exact Proc.sleepless_pure (by simp)
  | .error _ => exact Proc.sleepless_pure (by simp)

/-- Without a bound, polling does not sleep and never gives up. -/
theorem sleepless_pollUntil {part : Part} (hready : ready.Sleepless inv fun _ => True) :
    (pollUntil part .infinite ready).Sleepless inv fun settled => settled ≠ .ok false := by
  refine sleepless_pollOr hready fun s n hinv => ?_
  -- what polls on is as long as the allowance left, so the induction is on that
  have hpolls : ∀ fuel, (pollOn ready fuel).Sleepless inv fun settled => settled ≠ .ok false := by
    intro fuel
    induction fuel with
    | zero =>
      intro s n hinv
      refine ⟨hinv, fun part ns hmem => ?_, fun a hok => ?_⟩
      · cases hmem
      · cases hok
    | succ fuel ih => exact sleepless_pollOr hready ih
  show inv ((Proc.allowance >>= pollOn ready) s n).state ∧ _
  rw [Proc.allowance_bind_apply]
  exact hpolls n s n hinv

end Poll

/-! ## The engine -/

namespace Engine

open Log (Logger)

variable {β κ : Type}

/-- The engine waits without bound. -/
def Endless (engine : Engine β κ) : Prop := engine.config.wait = .infinite

theorem sleepless_onRegisters {α : Type} {p : Proc β α}
    (h : p.Sleepless (fun _ => True) fun _ => True) :
    (onRegisters p : Proc (Engine β κ) α).Sleepless Endless fun _ => True :=
  h.zoom (fun _ _ => trivial) fun _ _ hwait _ => hwait

theorem sleepless_log [Logger κ] (level : Log.Level) (pieces : List String) :
    (log level pieces : Proc (Engine β κ) Unit).Sleepless Endless fun _ => True := by
  have hnote : (Log.note .engine level pieces : Proc κ Unit).Sleepless (fun _ => True)
      fun _ => True := by
    intro logger n _
    refine ⟨trivial, fun part ns hmem => ?_, fun _ _ => trivial⟩
    unfold Log.note at hmem
    split at hmem
    · simp at hmem
    · simp at hmem
  exact hnote.zoom (fun _ _ => trivial) fun _ _ hwait _ => hwait

variable [RegisterBlock β]

omit [RegisterBlock β] in
theorem sleepless_of_isAccess {α : Type} {p : Proc β α}
    (h : ∀ block n, ∀ event ∈ (p block n).events, event.isAccess = true) :
    p.Sleepless (fun _ => True) fun _ => True := by
  intro block n _
  refine ⟨trivial, fun part ns hmem => ?_, fun _ _ => trivial⟩
  cases h block n _ hmem

theorem sleepless_load (width : Width) (offset : Nat) :
    (RegisterBlock.load width offset : Proc β width.Value).Sleepless (fun _ => True)
      fun _ => True := by
  refine sleepless_of_isAccess fun block n event hmem => ?_
  cases n with
  | zero => cases hmem
  | succ n =>
    unfold RegisterBlock.load at hmem
    cases hread : RegisterBlock.read width offset block with
    | error fault => simp [hread] at hmem
    | ok result =>
      obtain rfl : event = .read width offset result.1 := by simpa [hread] using hmem
      rfl

theorem sleepless_store (width : Width) (offset : Nat) (value : width.Value) :
    (RegisterBlock.store width offset value : Proc β Unit).Sleepless (fun _ => True)
      fun _ => True := by
  refine sleepless_of_isAccess fun block n event hmem => ?_
  cases n with
  | zero => cases hmem
  | succ n =>
    unfold RegisterBlock.store at hmem
    cases hwrite : RegisterBlock.write width offset value block with
    | error fault => simp [hwrite] at hmem
    | ok after =>
      obtain rfl : event = .write width offset value := by simpa [hwrite] using hmem
      rfl

theorem sleepless_status :
    (status : Proc (Engine β κ) Status).Sleepless Endless fun _ => True :=
  (sleepless_onRegisters (sleepless_load .byte Offset.status)).bind fun _ _ =>
    Proc.sleepless_pure trivial

theorem sleepless_popByte :
    (popByte : Proc (Engine β κ) UInt8).Sleepless Endless fun _ => True :=
  sleepless_onRegisters (sleepless_load .byte Offset.rxFifo)

theorem sleepless_pushWord (word : TxWord) :
    (pushWord word : Proc (Engine β κ) Unit).Sleepless Endless fun _ => True :=
  sleepless_onRegisters (sleepless_store .half Offset.txFifo word.bits)

theorem sleepless_flush (limit : Nat) :
    (flush limit : Proc (Engine β κ) _).Sleepless Endless fun _ => True := by
  induction limit with
  | zero => exact Proc.sleepless_pure trivial
  | succ limit ih =>
    refine sleepless_status.bind fun s _ => ?_
    show Proc.Sleepless _ (if s.rxEmpty = true then _ else _) _
    split
    · exact Proc.sleepless_pure trivial
    · exact sleepless_popByte.bind fun _ _ => ih.bind fun _ _ => Proc.sleepless_pure trivial

variable [Logger κ]

/-- A wait without bound that answers has been met. -/
theorem sleepless_await (flag : Flag) :
    (await flag : Proc (Engine β κ) _).Sleepless Endless fun result => result = .ok () := by
  refine Proc.sleepless_get.bind fun engine (hwait : engine.config.wait = .infinite) => ?_
  have hready : (do return .ok (flag.holds (← status)) :
      Proc (Engine β κ) (Except Empty Bool)).Sleepless Endless fun _ => True :=
    sleepless_status.bind fun _ _ => Proc.sleepless_pure trivial
  show Proc.Sleepless _ (pollUntil .engine engine.config.wait _ >>= _) _
  rw [hwait]
  refine (sleepless_pollUntil hready).bind fun settled hsettled => ?_
  match settled with
  | .ok true => exact Proc.sleepless_pure rfl
  | .ok false => exact absurd rfl hsettled

theorem sleepless_endDrain {drained : Except Empty Bool} (h : drained ≠ .ok false) (count : Nat) :
    (endDrain drained count : Proc (Engine β κ) _).Sleepless Endless
      fun result => result = .ok () := by
  match drained with
  | .ok false => exact absurd rfl h
  | .ok true =>
    show Proc.Sleepless _ (if 0 < count then _ else _) _
    split
    · exact (sleepless_log _ _).bind fun _ _ => Proc.sleepless_pure rfl
    · exact Proc.sleepless_pure rfl

theorem sleepless_drain :
    (drain : Proc (Engine β κ) _).Sleepless Endless fun result => result = .ok () := by
  have hready : (flushCounting : Proc (Engine β κ × Nat) _).Sleepless (fun s => s.1.Endless)
      fun _ => True := by
    refine Proc.Sleepless.bind ((sleepless_flush rxFifoDepth).zoom ?_ ?_) fun result _ => ?_
    · exact fun _ hwait => hwait
    · exact fun _ _ _ hwait => hwait
    · exact (Proc.sleepless_modify fun _ hwait => hwait).bind fun _ _ => Proc.sleepless_pure trivial
  rw [drain_eq]
  refine Proc.sleepless_get.bind fun engine (hwait : engine.config.wait = .infinite) => ?_
  show Proc.Sleepless _ (Proc.withLocal 0 (pollUntil .engine engine.config.wait _) >>= _) _
  rw [hwait]
  exact (sleepless_pollUntil hready).withLocal.bind fun answer hanswer =>
    sleepless_endDrain hanswer answer.2

/-- Moves that do not give up by themselves do not fail either. -/
theorem sleepless_perform {move : Move} (h : ∀ error, move ≠ .refuse error) :
    (perform move : Proc (Engine β κ) _).Sleepless Endless fun reply => reply.result = .ok () := by
  cases move with
  | await flag => exact (sleepless_await flag).bind fun _ hok => Proc.sleepless_pure hok
  | drain => exact sleepless_drain.bind fun _ hok => Proc.sleepless_pure hok
  | push word => exact (sleepless_pushWord word).bind fun _ _ => Proc.sleepless_pure rfl
  | pop => exact sleepless_popByte.bind fun _ _ => Proc.sleepless_pure rfl
  | refuse error => exact absurd rfl (h error)

theorem sleepless_performAll {moves : List Move} (h : ∀ error, .refuse error ∉ moves) :
    (performAll moves : Proc (Engine β κ) _).Sleepless Endless
      fun reply => reply.result = .ok () := by
  induction moves with
  | nil => exact Proc.sleepless_pure rfl
  | cons move rest ih =>
    obtain ⟨hmove, hrest⟩ := Move.refuse_not_mem_cons h
    refine (sleepless_perform hmove).bind fun first hfirst => ?_
    rw [hfirst]
    exact Proc.Sleepless.map ((ih hrest).mono fun later hlater => hlater)

end Engine

end TwoWire
