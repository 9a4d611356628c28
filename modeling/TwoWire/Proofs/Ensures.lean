import TwoWire.Poll
import TwoWire.RegisterBlock

/-!
# Reasoning about procedures

Two ways of saying what a procedure does, each with a rule for every way of building procedures.

* `Proc.Ensures p s post`: whenever `p` answers from the state `s`, the postcondition holds of the
  events shown, the answer and the state left. The allowance does not matter.
* `Proc.Always rel p`: however `p` ends, the state before, the events and the state after are
  related. The relation has to compose along a run (`Chained`).

Polling has rules of each kind: `ensures_pollUntil_counted` takes an invariant over the events so far
that counts the polls, `ensures_pollUntil_listed` one over the list of what each poll showed;
`Always.pollUntil` follows from what a poll and a pause do.
-/

namespace TwoWire

namespace Proc

variable {σ τ α β : Type}

/-! ## Asking for the state and the allowance -/

theorem get_bind_apply (f : σ → Proc σ α) (s : σ) (n : Nat) : (get >>= f) s n = f s s n := by
  rw [bind_of_ok rfl]
  rfl

theorem allowance_bind_apply (f : Nat → Proc σ α) (s : σ) (n : Nat) :
    (allowance >>= f) s n = f n s n := by
  rw [bind_of_ok rfl]
  rfl

/-! ## What holds of an answer -/

/-- Whenever the procedure answers from `s`, `post` holds of events, answer and state. -/
def Ensures (p : Proc σ α) (s : σ) (post : List Event → α → σ → Prop) : Prop :=
  ∀ n a, (p s n).outcome = .ok a → post (p s n).events a (p s n).state

section Ensures

variable {s : σ} {p : Proc σ α}

theorem Ensures.mono {post post' : List Event → α → σ → Prop} (h : p.Ensures s post)
    (himp : ∀ ev a s', post ev a s' → post' ev a s') : p.Ensures s post' := by
  intro n a hok
  exact himp _ _ _ (h n a hok)

theorem Ensures.and {post post' : List Event → α → σ → Prop} (h : p.Ensures s post)
    (h' : p.Ensures s post') : p.Ensures s fun ev a s' => post ev a s' ∧ post' ev a s' :=
  fun n a hok => ⟨h n a hok, h' n a hok⟩

theorem ensures_pure {a : α} {post : List Event → α → σ → Prop} (h : post [] a s) :
    (pure a : Proc σ α).Ensures s post := by
  intro n b hok
  obtain rfl : a = b := Except.ok.inj hok
  exact h

theorem Ensures.bind {f : α → Proc σ β} {post : List Event → β → σ → Prop}
    (h : p.Ensures s fun ev a s' => (f a).Ensures s' fun ev' => post (ev ++ ev')) :
    (p >>= f).Ensures s post := by
  intro n b hok
  cases hp : (p s n).outcome with
  | error halt =>
    rw [bind_of_halt hp] at hok
    cases hok
  | ok a =>
    rw [bind_of_ok hp] at hok ⊢
    exact h n a hp _ b hok

theorem Ensures.map {f : α → β} {post : List Event → β → σ → Prop}
    (h : p.Ensures s fun ev a => post ev (f a)) : (f <$> p).Ensures s post := by
  intro n b hok
  rw [map_apply] at hok ⊢
  cases hp : (p s n).outcome with
  | error halt => simp [hp, Except.map] at hok
  | ok a =>
    obtain rfl : f a = b := by simpa [hp, Except.map] using hok
    exact h n a hp

theorem ensures_get {post : List Event → σ → σ → Prop} (h : post [] s s) :
    (get : Proc σ σ).Ensures s post := by
  intro n b hok
  obtain rfl : s = b := Except.ok.inj hok
  exact h

theorem ensures_modify {f : σ → σ} {post : List Event → Unit → σ → Prop}
    (h : post [] () (f s)) : (modify f).Ensures s post :=
  fun _ _ _ => h

theorem ensures_allowance {post : List Event → Nat → σ → Prop} (h : ∀ n, post [] n s) :
    (allowance : Proc σ Nat).Ensures s post :=
  fun _ b _ => h b

theorem ensures_halt {halt : Halt} {post : List Event → α → σ → Prop} :
    (Proc.halt halt : Proc σ α).Ensures s post := by
  intro n b hok
  cases hok

theorem ensures_emit {events : List Event} {post : List Event → Unit → σ → Prop}
    (h : post events () s) : (emit events).Ensures s post :=
  fun _ _ _ => h

theorem Ensures.zoom {get : σ → τ} {set : τ → σ → σ} {q : Proc τ α}
    {post : List Event → α → σ → Prop}
    (h : q.Ensures (get s) fun ev a t => post ev a (set t s)) :
    (q.zoom get set).Ensures s post := by
  intro n a hok
  exact h n a hok

theorem Ensures.withLocal {value : τ} {q : Proc (σ × τ) α}
    {post : List Event → α × τ → σ → Prop}
    (h : q.Ensures (s, value) fun ev a s' => post ev (a, s'.2) s'.1) :
    (q.withLocal value).Ensures s post := by
  intro n b hok
  cases hq : (q (s, value) n).outcome with
  | error halt => simp [Proc.withLocal, hq, Except.map] at hok
  | ok a =>
    obtain rfl : (a, (q (s, value) n).state.2) = b := by
      simpa [Proc.withLocal, hq, Except.map] using hok
    exact h n a hq

end Ensures

/-! ## What holds however a run ends -/

/-- A relation that composes along a run. -/
structure Chained (rel : σ → List Event → σ → Prop) : Prop where
  refl : ∀ s, rel s [] s
  trans : ∀ {s s' s'' ev ev'}, rel s ev s' → rel s' ev' s'' → rel s (ev ++ ev') s''

/-- A relation on the first half of a pair composes as it does alone. -/
theorem Chained.fst {rel : σ → List Event → σ → Prop} (h : Chained rel) :
    Chained fun (s : σ × τ) ev s' => rel s.1 ev s'.1 :=
  ⟨fun s => h.refl s.1, fun hab hbc => h.trans hab hbc⟩

/-- However the procedure ends, `rel` holds of the state before, the events and the state after. -/
def Always (rel : σ → List Event → σ → Prop) (p : Proc σ α) : Prop :=
  ∀ s n, rel s (p s n).events (p s n).state

section Always

variable {rel : σ → List Event → σ → Prop} {p : Proc σ α}

/-- What holds however a run ends holds of an answer. -/
theorem Always.ensures (h : Always rel p) (s : σ) : p.Ensures s fun ev _ s' => rel s ev s' :=
  fun n _ _ => h s n

theorem always_pure (hr : Chained rel) (a : α) : Always rel (pure a : Proc σ α) :=
  fun s _ => hr.refl s

theorem Always.bind (hr : Chained rel) {f : α → Proc σ β} (hp : Always rel p)
    (hf : ∀ a, Always rel (f a)) : Always rel (p >>= f) := by
  intro s n
  cases h : (p s n).outcome with
  | error halt =>
    rw [bind_of_halt h]
    exact hp s n
  | ok a =>
    rw [bind_of_ok h]
    exact hr.trans (hp s n) (hf a _ _)

theorem Always.map {f : α → β} (hp : Always rel p) : Always rel (f <$> p) := hp

theorem always_get (hr : Chained rel) : Always rel (get : Proc σ σ) := fun s _ => hr.refl s

theorem always_allowance (hr : Chained rel) : Always rel (allowance : Proc σ Nat) :=
  fun s _ => hr.refl s

theorem always_halt (hr : Chained rel) (halt : Halt) : Always rel (Proc.halt halt : Proc σ α) :=
  fun s _ => hr.refl s

theorem Always.zoom {get : σ → τ} {set : τ → σ → σ} {q : Proc τ α}
    {rel' : τ → List Event → τ → Prop} (hq : Always rel' q)
    (himp : ∀ s ev t, rel' (get s) ev t → rel s ev (set t s)) : Always rel (q.zoom get set) := by
  intro s n
  exact himp s _ _ (hq (get s) n)

theorem Always.withLocal {value : τ} {q : Proc (σ × τ) α}
    (hq : Always (fun s ev s' => rel s.1 ev s'.1) q) : Always rel (q.withLocal value) := by
  intro s n
  exact hq (s, value) n

end Always

end Proc

/-! ## Polling -/

section Poll

variable {σ ε : Type} {ready : Proc σ (Except ε Bool)}

/-- The postcondition of one poll: polling goes on with `again`, or ends with `post`. -/
def PollStep (again : List Event → σ → Prop) (post : List Event → Except ε Bool → σ → Prop)
    (events : List Event) : Except ε Bool → σ → Prop
  | .ok false, s => again events s
  | settled, s => post events settled s

variable {inv : List Event → σ → Prop} {post : List Event → Except ε Bool → σ → Prop}

theorem ensures_pollOr {next : Proc σ (Except ε Bool)} {before : List Event} {s : σ}
    (hready : ready.Ensures s fun ev => PollStep inv post (before ++ ev))
    (hnext : ∀ ev s', inv ev s' → next.Ensures s' fun ev' => post (ev ++ ev')) :
    (pollOr ready next).Ensures s fun ev => post (before ++ ev) := by
  refine Proc.Ensures.bind (hready.mono fun ev a s' h => ?_)
  match a with
  | .ok false => simpa only [List.append_assoc] using hnext _ _ h
  | .ok true => exact Proc.ensures_pure (by rw [List.append_nil]; exact h)
  | .error _ => exact Proc.ensures_pure (by rw [List.append_nil]; exact h)

/-- What shows between two polls: nothing if they follow each other, or else the pause. -/
def pauseEvents (part : Part) (policy : WaitPolicy) : List Event :=
  match policy.maxPolls with
  | none => []
  | some _ => (sleepParts policy.pause).map (.sleep part)

/-- Polls without pauses; `failed` counts those that have failed. -/
theorem ensures_pollOn {failed : Nat → List Event → σ → Prop}
    (hready : ∀ i before s, failed i before s →
      ready.Ensures s fun ev => PollStep (failed (i + 1)) post (before ++ ev))
    (fuel : Nat) {i : Nat} {before : List Event} {s : σ} (h : failed i before s) :
    (pollOn ready fuel).Ensures s fun ev => post (before ++ ev) := by
  induction fuel generalizing i before s with
  -- running out of fuel gives no answer, so there is nothing to show
  | zero => exact Proc.ensures_halt
  | succ fuel ih => exact ensures_pollOr (hready i before s h) fun ev s' h' => ih h'

/-- Polls with pauses, up to the one that makes `count + 1` of them fail. -/
theorem ensures_pollTimes {failed : Nat → List Event → σ → Prop} {part : Part} {pause count : Nat}
    (hready : ∀ i before s, i ≤ count → failed i before s → ready.Ensures s fun ev =>
      PollStep (failed (i + 1)) post (before ++ (sleepParts pause).map (.sleep part) ++ ev))
    (hexpire : ∀ before s, failed (count + 1) before s → post before (.ok false) s)
    (left : Nat) {i : Nat} {before : List Event} {s : σ} (hleft : i + left = count + 1)
    (h : failed i before s) :
    (pollTimes part pause ready left).Ensures s fun ev => post (before ++ ev) := by
  induction left generalizing i before s with
  | zero =>
    obtain rfl : i = count + 1 := hleft
    exact Proc.ensures_pure (by simpa using hexpire before s h)
  | succ left ih =>
    refine Proc.Ensures.bind (Proc.ensures_emit ?_)
    have hpoll := hready i before s (by omega) h
    have hrest : (pollOr ready (pollTimes part pause ready left)).Ensures s fun ev =>
        post (before ++ (sleepParts pause).map (.sleep part) ++ ev) :=
      ensures_pollOr hpoll fun ev s' h' => ih (by omega) h'
    simpa only [List.append_assoc] using hrest

/--
**The rule for polling, poll by poll.** `failed i` holds of the events so far and the state after
`i` polls at which the condition did not hold; a bounded policy runs out after its first poll and
as many more as it allows.
-/
theorem ensures_pollUntil_counted {part : Part} {policy : WaitPolicy} {s : σ}
    (failed : Nat → List Event → σ → Prop)
    (hfirst : ready.Ensures s fun ev => PollStep (failed 1) post ev)
    (hnext : ∀ i before s, (∀ count, policy.maxPolls = some count → i ≤ count) →
      failed i before s → ready.Ensures s fun ev =>
        PollStep (failed (i + 1)) post (before ++ pauseEvents part policy ++ ev))
    (hexpire : ∀ count before s, policy.maxPolls = some count → failed (count + 1) before s →
      post before (.ok false) s) :
    (pollUntil part policy ready).Ensures s post := by
  have hstart : ready.Ensures s fun ev => PollStep (failed 1) post ([] ++ ev) := hfirst
  refine ensures_pollOr hstart fun ev s' h => ?_
  unfold pauseEvents at hnext
  cases hpolicy : policy.maxPolls with
  | none =>
    rw [hpolicy] at hnext
    refine Proc.Ensures.bind (Proc.ensures_allowance fun n => ensures_pollOn ?_ n h)
    intro i before s hfailed
    simpa only [List.append_nil] using hnext i before s nofun hfailed
  | some count =>
    rw [hpolicy] at hnext
    refine ensures_pollTimes (fun i before s hle hfailed => ?_)
      (fun before s => hexpire count before s hpolicy) count (Nat.add_comm 1 count) h
    refine hnext i before s (fun other hother => ?_) hfailed
    obtain rfl : count = other := Option.some.inj hother
    exact hle

/-- One more item stands behind a separator. -/
theorem intercalate_concat {α : Type} {items : List (List α)} (hne : items ≠ [])
    (separator last : List α) :
    separator.intercalate (items ++ [last]) = separator.intercalate items ++ separator ++ last := by
  induction items with
  | nil => exact absurd rfl hne
  | cons first rest ih =>
    cases rest with
    | nil => simp
    | cons second rest =>
      have hrest := ih (List.cons_ne_nil second rest)
      simp only [List.cons_append] at hrest
      simp only [List.cons_append, List.intercalate_cons_cons, hrest, List.append_assoc]

/--
**The rule for polling, as a list of polls.** `missed` holds of the polls so far, given by what each
of them showed, and of the state after them. What shows in the end is the polls, and between any two
of them what shows there under the policy.
-/
theorem ensures_pollUntil_listed {part : Part} {policy : WaitPolicy} {s : σ}
    (missed : List (List Event) → σ → Prop)
    (post : List (List Event) → Except ε Bool → σ → Prop) (hstart : missed [] s)
    (hpoll : ∀ polls s, (∀ count, policy.maxPolls = some count → polls.length ≤ count) →
      missed polls s → ready.Ensures s fun ev =>
        PollStep (fun ev => missed (polls ++ [ev])) (fun ev => post (polls ++ [ev])) ev)
    (hexpire : ∀ count polls s, policy.maxPolls = some count → polls.length = count + 1 →
      missed polls s → post polls (.ok false) s) :
    (pollUntil part policy ready).Ensures s fun ev answer s' =>
      ∃ polls, ev = (pauseEvents part policy).intercalate polls ∧ post polls answer s' := by
  refine ensures_pollUntil_counted (fun i before s => ∃ polls, polls.length = i ∧ polls ≠ []
    ∧ before = (pauseEvents part policy).intercalate polls ∧ missed polls s) ?_ ?_ ?_
  · refine (hpoll [] s (fun _ _ => Nat.zero_le _) hstart).mono fun ev answer s' h => ?_
    match answer with
    | .ok false => exact ⟨[ev], rfl, List.cons_ne_nil _ _, by simp, h⟩
    | .ok true => exact ⟨[ev], by simp, h⟩
    | .error _ => exact ⟨[ev], by simp, h⟩
  · rintro _ _ s hcount ⟨polls, rfl, hne, rfl, hmissed⟩
    refine (hpoll polls s hcount hmissed).mono fun ev answer s' h => ?_
    have hlast := intercalate_concat hne (pauseEvents part policy) ev
    match answer with
    | .ok false => exact ⟨polls ++ [ev], by simp, by simp, hlast.symm, h⟩
    | .ok true => exact ⟨polls ++ [ev], hlast.symm, h⟩
    | .error _ => exact ⟨polls ++ [ev], hlast.symm, h⟩
  · rintro count _ s hpolicy ⟨polls, hlen, -, rfl, hmissed⟩
    exact ⟨polls, rfl, hexpire count polls s hpolicy hlen hmissed⟩

variable {rel : σ → List Event → σ → Prop}

theorem Always.pollOr (hr : Proc.Chained rel) {next : Proc σ (Except ε Bool)}
    (hready : Proc.Always rel ready) (hnext : Proc.Always rel next) :
    Proc.Always rel (pollOr ready next) := by
  refine hready.bind hr fun a => ?_
  match a with
  | .ok false => exact hnext
  | .ok true => exact Proc.always_pure hr _
  | .error _ => exact Proc.always_pure hr _

/-- What every poll and every pause do, polling does. -/
theorem Always.pollUntil (hr : Proc.Chained rel) {part : Part} {policy : WaitPolicy}
    (hready : Proc.Always rel ready)
    (hpause : Proc.Always rel (sleep part policy.pause : Proc σ Unit)) :
    Proc.Always rel (pollUntil part policy ready) := by
  refine Always.pollOr hr hready ?_
  cases policy.maxPolls with
  | none =>
    refine (Proc.always_allowance hr).bind hr fun fuel => ?_
    induction fuel with
    | zero => exact Proc.always_halt hr _
    | succ fuel ih => exact Always.pollOr hr hready ih
  | some count =>
    show Proc.Always rel (pollTimes part policy.pause ready count)
    induction count with
    | zero => exact Proc.always_pure hr _
    | succ count ih => exact hpause.bind hr fun _ => Always.pollOr hr hready ih

end Poll

end TwoWire
