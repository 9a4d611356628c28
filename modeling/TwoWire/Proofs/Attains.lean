import TwoWire.Proofs.Polling
import TwoWire.Proofs.Waits

/-!
# What a procedure attains

`Proc.Attains p s limit post` says everything of the runs of `p` from `s`: with an allowance of
`limit` there is an answer, every answer takes no more than that, and `post` holds of the events
shown, the answer and the state left. It puts together what `Proc.Spends` and `Proc.Ensures` say
(`Spends.attains`), and it joins along a sequence as they do. `Proc.Strands` says of a procedure
that it never answers, and what it leaves behind if it is given enough.

Polling attains what its polls attain, if it is known what each of them answers
(`attains_pollUntil`). If all of them miss, polling without bound is stranded, after any number of
polls (`strands_pollUntil`).
-/

namespace TwoWire

open Event (sleeps)

namespace Proc

variable {σ τ α β : Type}

/-- The procedure answers if it is given the limit, takes no more, and leaves what `post` says. -/
def Attains (p : Proc σ α) (s : σ) (limit : Nat) (post : List Event → α → σ → Prop) : Prop :=
  ∀ n, match (p s n).outcome with
    | .ok a => n ≤ (p s n).left + limit ∧ post (p s n).events a (p s n).state
    | .error .exhausted => n < limit
    | .error (.fault _) => False

/-- The procedure does not answer; if it is given the limit, it leaves a state of a kind. -/
def Strands (p : Proc σ α) (s : σ) (limit : Nat) (kind : σ → Prop) : Prop :=
  ∀ n, (p s n).outcome = .error .exhausted ∧ (limit ≤ n → kind (p s n).state)

section Attains

variable {s : σ} {p : Proc σ α} {limit : Nat} {post : List Event → α → σ → Prop}

/-- With enough to spend, there is an answer. -/
theorem Attains.exists_answer (h : p.Attains s limit post) {n : Nat} (hn : limit ≤ n) :
    ∃ a, (p s n).outcome = .ok a ∧ post (p s n).events a (p s n).state := by
  have hend := h n
  match hout : (p s n).outcome with
  | .ok a =>
    rw [hout] at hend
    exact ⟨a, rfl, hend.2⟩
  | .error .exhausted =>
    rw [hout] at hend
    exact absurd hn (Nat.not_le_of_lt hend)
  | .error (.fault cause) =>
    rw [hout] at hend
    exact hend.elim

/-- What is bounded in its answers attains what they ensure. -/
theorem Spends.attains {holds : α → σ → Prop} {shows : List Event → α → σ → Prop}
    (h : p.Spends False s limit fun _ => holds) (h' : p.Ensures s shows) :
    p.Attains s limit fun ev a s' => holds a s' ∧ shows ev a s' := by
  intro n
  obtain ⟨hspent, hend⟩ := h n
  match hout : (p s n).outcome with
  | .ok a =>
    rw [hout] at hend
    exact ⟨by omega, hend.2, h' n a hout⟩
  | .error .exhausted =>
    rw [hout] at hend
    exact hend
  | .error (.fault cause) =>
    rw [hout] at hend
    exact hend

theorem Attains.mono {limit' : Nat} {post' : List Event → α → σ → Prop}
    (h : p.Attains s limit post) (hle : limit ≤ limit')
    (himp : ∀ ev a s', post ev a s' → post' ev a s') : p.Attains s limit' post' := by
  intro n
  have hend := h n
  match hout : (p s n).outcome with
  | .ok a =>
    rw [hout] at hend
    exact ⟨by omega, himp _ _ _ hend.2⟩
  | .error .exhausted =>
    rw [hout] at hend
    exact Nat.lt_of_lt_of_le hend hle
  | .error (.fault cause) =>
    rw [hout] at hend
    exact hend

theorem attains_pure {a : α} (h : post [] a s) : (pure a : Proc σ α).Attains s 0 post :=
  fun n => ⟨Nat.le_refl n, h⟩

theorem attains_emit {events : List Event} {post : List Event → Unit → σ → Prop}
    (h : post events () s) : (emit events).Attains s 0 post :=
  fun n => ⟨Nat.le_refl n, h⟩

theorem Attains.bind {rest : Nat} {f : α → Proc σ β} {post : List Event → β → σ → Prop}
    (h : p.Attains s limit fun ev a s' => (f a).Attains s' rest fun ev' => post (ev ++ ev')) :
    (p >>= f).Attains s (limit + rest) post := by
  intro n
  have hend := h n
  match hout : (p s n).outcome with
  | .error .exhausted =>
    rw [hout] at hend
    rw [bind_of_halt hout]
    exact Nat.lt_of_lt_of_le hend (Nat.le_add_right limit rest)
  | .error (.fault cause) =>
    rw [hout] at hend
    exact hend.elim
  | .ok a =>
    rw [hout] at hend
    obtain ⟨hleft, hnext⟩ := hend
    have hend' := hnext (p s n).left
    rw [bind_of_ok hout]
    simp only
    match hout' : (f a (p s n).state (p s n).left).outcome with
    | .ok b =>
      rw [hout'] at hend'
      exact ⟨by omega, hend'.2⟩
    | .error .exhausted =>
      rw [hout'] at hend'
      have hshort : (p s n).left < rest := hend'
      show n < limit + rest
      omega
    | .error (.fault cause) =>
      rw [hout'] at hend'
      exact hend'

theorem Attains.map {f : α → β} {post : List Event → β → σ → Prop}
    (h : p.Attains s limit fun ev a => post ev (f a)) : (f <$> p).Attains s limit post := by
  have hanswer : p.Attains s limit fun ev a s' =>
      (pure (f a) : Proc σ β).Attains s' 0 fun ev' => post (ev ++ ev') := by
    refine h.mono (Nat.le_refl limit) fun ev a s' hpost => attains_pure ?_
    rwa [List.append_nil]
  have hnext : (p >>= fun a => pure (f a)).Attains s (limit + 0) post := hanswer.bind
  rwa [bind_pure_comp] at hnext

theorem Attains.zoom {get : σ → τ} {set : τ → σ → σ} {q : Proc τ α}
    (h : q.Attains (get s) limit fun ev a t => post ev a (set t s)) :
    (q.zoom get set).Attains s limit post :=
  fun n => h n

end Attains

section Strands

variable {s : σ} {p : Proc σ α} {f : α → Proc σ β} {limit : Nat} {kind : σ → Prop}

theorem Strands.mono {limit' : Nat} {kind' : σ → Prop} (h : p.Strands s limit kind)
    (hle : limit ≤ limit') (himp : ∀ s', kind s' → kind' s') : p.Strands s limit' kind' :=
  fun n => ⟨(h n).1, fun hn => himp _ ((h n).2 (Nat.le_trans hle hn))⟩

/-- What is stranded is never followed by anything. -/
theorem Strands.bind (h : p.Strands s limit kind) : (p >>= f).Strands s limit kind := by
  intro n
  obtain ⟨hout, hkind⟩ := h n
  rw [bind_of_halt hout]
  exact ⟨rfl, hkind⟩

/-- A step that answers may be followed by one that is stranded. -/
theorem Attains.bind_strands {rest : Nat}
    (h : p.Attains s limit fun _ a s' => (f a).Strands s' rest kind) :
    (p >>= f).Strands s (limit + rest) kind := by
  intro n
  have hend := h n
  match hout : (p s n).outcome with
  | .error .exhausted =>
    rw [hout] at hend
    have hshort : n < limit := hend
    rw [bind_of_halt hout]
    exact ⟨rfl, fun hn => by omega⟩
  | .error (.fault cause) =>
    rw [hout] at hend
    exact hend.elim
  | .ok a =>
    rw [hout] at hend
    obtain ⟨hleft, hnext⟩ := hend
    obtain ⟨hout', hkind⟩ := hnext (p s n).left
    rw [bind_of_ok hout]
    exact ⟨hout', fun hn => hkind (by omega)⟩

theorem Strands.map {g : α → β} (h : p.Strands s limit kind) : (g <$> p).Strands s limit kind := by
  intro n
  obtain ⟨hout, hkind⟩ := h n
  rw [map_apply, hout]
  exact ⟨rfl, hkind⟩

theorem Strands.zoom {get : σ → τ} {set : τ → σ → σ} {q : Proc τ α}
    (h : q.Strands (get s) limit fun t => kind (set t s)) : (q.zoom get set).Strands s limit kind :=
  fun n => h n

end Strands

end Proc

/-- A record that is taken shows as such, and costs nothing. -/
theorem Log.attains_note {κ : Type} [Log.Logger κ] {part : Part} {level : Log.Level}
    {pieces : List String} {logger : κ}
    (h : ∃ next, Log.Logger.record level pieces logger = .ok next) :
    (Log.note part level pieces).Attains logger 0 fun ev _ _ =>
      ev = [.log part level (String.join pieces)] := by
  intro n
  obtain ⟨next, hrecord⟩ := h
  unfold Log.note
  rw [hrecord]
  exact ⟨Nat.le_refl n, rfl⟩

/-! ## Polling -/

section Poll

variable {σ ε : Type} {part : Part} {ready : Proc σ (Except ε Bool)} {cost : Nat}
  {answer : Nat → Bool} {inv : Nat → σ → Prop}
  (hpoll : ∀ i s, inv i s → ready.Attains s cost fun ev settled s' =>
    settled = .ok (answer i) ∧ sleeps part ev = [] ∧ inv (i + 1) s')
include hpoll

/-- The last poll: it holds, or what follows it answers that the policy ran out. -/
theorem attains_pollOr_last {next : Proc σ (Except ε Bool)} {i : Nat} {s : σ} (h : inv i s)
    (hnext : answer i = true ∨ next = pure (.ok false)) :
    (pollOr ready next).Attains s cost fun ev settled s' =>
      settled = .ok (answer i) ∧ sleeps part ev = [] ∧ inv (i + 1) s' := by
  have hlimit : cost = cost + 0 := rfl
  rw [hlimit]
  refine Proc.Attains.bind ((hpoll i s h).mono (Nat.le_refl cost) ?_)
  rintro ev _ s' ⟨rfl, hshown, hinv⟩
  cases hanswer : answer i with
  | true =>
    refine Proc.attains_pure ⟨rfl, ?_, hinv⟩
    rwa [List.append_nil]
  | false =>
    rw [hanswer] at hnext
    obtain rfl := hnext.resolve_left Bool.false_ne_true
    refine Proc.attains_pure ⟨rfl, ?_, hinv⟩
    rwa [List.append_nil]

/-- A poll that misses, and what follows it. -/
theorem attains_pollOr_of_miss {next : Proc σ (Except ε Bool)} {i rest : Nat} {s : σ}
    {naps : List Nat} {last : Bool} {kind : σ → Prop} (h : inv i s) (hmiss : answer i = false)
    (hnext : ∀ s', inv (i + 1) s' → next.Attains s' rest fun ev settled s'' =>
      settled = .ok last ∧ sleeps part ev = naps ∧ kind s'') :
    (pollOr ready next).Attains s (cost + rest) fun ev settled s' =>
      settled = .ok last ∧ sleeps part ev = naps ∧ kind s' := by
  refine Proc.Attains.bind ((hpoll i s h).mono (Nat.le_refl cost) ?_)
  rintro ev _ s' ⟨rfl, hshown, hinv⟩
  rw [hmiss]
  refine (hnext s' hinv).mono (Nat.le_refl rest) fun ev' settled s'' hpost => ?_
  rwa [Event.sleeps_append, hshown, List.nil_append]

/-- Polls with pauses, `left` of them before the last one. -/
theorem attains_pollTimes (pause : Nat) {left i count : Nat} {s : σ} (h : inv i s)
    (hle : left ≤ count) (hmisses : ∀ k < left, answer (i + k) = false)
    (hend : answer (i + left) = true ∨ left = count) :
    (pollOr ready (pollTimes part pause ready count)).Attains s ((left + 1) * cost)
      fun ev settled s' => settled = .ok (answer (i + left))
        ∧ sleeps part ev = (List.replicate left (sleepParts pause)).flatten
        ∧ inv (i + left + 1) s' := by
  induction left generalizing i count s with
  | zero =>
    rw [Nat.zero_add, Nat.one_mul]
    refine attains_pollOr_last hpoll h (hend.imp_right ?_)
    rintro rfl
    rfl
  | succ left ih =>
    obtain ⟨count, rfl⟩ := Nat.exists_eq_add_of_le' (Nat.le_trans (Nat.succ_pos left) hle)
    have hplace : ∀ k, i + (k + 1) = i + 1 + k := fun k => by omega
    have hlimit : (left + 1 + 1) * cost = cost + (0 + (left + 1) * cost) := by
      rw [Nat.succ_mul (left + 1)]
      omega
    rw [hlimit]
    refine attains_pollOr_of_miss hpoll h (hmisses 0 (Nat.succ_pos left)) fun s' hinv => ?_
    refine Proc.Attains.bind (Proc.attains_emit ((ih hinv (Nat.le_of_succ_le_succ hle) ?_ ?_).mono
      (Nat.le_refl _) ?_))
    · intro k hk
      rw [← hplace]
      exact hmisses (k + 1) (Nat.succ_lt_succ hk)
    · rw [← hplace]
      exact hend.imp_right Nat.succ.inj
    · rintro ev settled s'' ⟨hlast, hshown, hinv'⟩
      rw [hplace]
      refine ⟨hlast, ?_, hinv'⟩
      rw [Event.sleeps_append, Event.sleeps_pause, hshown, List.replicate_succ, List.flatten_cons]

/-- Polls without pauses, `left` of them before the one that holds. -/
theorem attains_pollOn {left i fuel : Nat} {s : σ} (h : inv i s) (hlt : left < fuel)
    (hmisses : ∀ k < left, answer (i + k) = false) (hend : answer (i + left) = true) :
    (pollOn ready fuel).Attains s ((left + 1) * cost) fun ev settled s' =>
      settled = .ok (answer (i + left)) ∧ sleeps part ev = [] ∧ inv (i + left + 1) s' := by
  induction left generalizing i fuel s with
  | zero =>
    obtain ⟨fuel, rfl⟩ := Nat.exists_eq_add_of_le' hlt
    rw [Nat.zero_add, Nat.one_mul]
    exact attains_pollOr_last hpoll h (.inl hend)
  | succ left ih =>
    obtain ⟨fuel, rfl⟩ := Nat.exists_eq_add_of_le' (Nat.le_trans (Nat.succ_pos _) hlt)
    have hplace : ∀ k, i + (k + 1) = i + 1 + k := fun k => by omega
    have hlimit : (left + 1 + 1) * cost = cost + (left + 1) * cost := by
      rw [Nat.succ_mul (left + 1), Nat.add_comm]
    rw [hlimit, hplace]
    refine attains_pollOr_of_miss hpoll h (hmisses 0 (Nat.succ_pos left)) fun s' hinv => ?_
    refine ih hinv (Nat.lt_of_succ_lt_succ hlt) (fun k hk => ?_) ?_
    · rw [← hplace]
      exact hmisses (k + 1) (Nat.succ_lt_succ hk)
    · rwa [← hplace]

/-- As many polls as there are misses leave nothing to end with. -/
theorem strands_pollOn {i fuel : Nat} {s : σ} (h : inv i s)
    (hmisses : ∀ k < fuel, answer (i + k) = false) :
    (pollOn ready fuel).Strands s (fuel * cost) (inv (i + fuel)) := by
  induction fuel generalizing i s with
  | zero =>
    intro n
    exact ⟨rfl, fun _ => h⟩
  | succ fuel ih =>
    have hplace : ∀ k, i + (k + 1) = i + 1 + k := fun k => by omega
    rw [Nat.succ_mul, Nat.add_comm (fuel * cost), hplace]
    refine Proc.Attains.bind_strands ((hpoll i s h).mono (Nat.le_refl cost) ?_)
    rintro ev _ s' ⟨rfl, -, hinv⟩
    have hmiss : answer i = false := hmisses 0 (Nat.succ_pos fuel)
    rw [hmiss]
    refine ih hinv fun k hk => ?_
    rw [← hplace]
    exact hmisses (k + 1) (Nat.succ_lt_succ hk)

/-- As many polls as are left to spend: there are enough of them, or else nothing is left. -/
theorem attains_pollOn_allowance {left i : Nat} {s : σ} (h : inv i s) (hcost : 0 < cost)
    (hmisses : ∀ k < left, answer (i + k) = false) (hend : answer (i + left) = true) :
    (Proc.allowance >>= pollOn ready).Attains s ((left + 1) * cost) fun ev settled s' =>
      settled = .ok (answer (i + left)) ∧ sleeps part ev = [] ∧ inv (i + left + 1) s' := by
  intro n
  rw [Proc.allowance_bind_apply]
  by_cases hlt : left < n
  · exact attains_pollOn hpoll h hlt hmisses hend n
  · have hle : n ≤ left := Nat.le_of_not_lt hlt
    have hstrands := strands_pollOn hpoll h fun k hk => hmisses k (Nat.lt_of_lt_of_le hk hle)
    rw [(hstrands n).1]
    have hlimit : left + 1 ≤ (left + 1) * cost := Nat.le_mul_of_pos_right _ hcost
    show n < (left + 1) * cost
    omega

/--
**Polling ends with the first poll that holds, or else with the last one that the policy allows.**
There are `m` polls before it, each of them a miss and followed by a pause.
-/
theorem attains_pollUntil {policy : WaitPolicy} {m : Nat} {s : σ} (h : inv 0 s) (hcost : 0 < cost)
    (hmisses : ∀ i < m, answer i = false)
    (hallowed : ∀ most, policy.maxPolls = some most → m ≤ most)
    (hend : answer m = true ∨ policy.maxPolls = some m) :
    (pollUntil part policy ready).Attains s ((m + 1) * cost) fun ev settled s' =>
      settled = .ok (answer m)
        ∧ sleeps part ev = (List.replicate m (sleeps part (pauseEvents part policy))).flatten
        ∧ inv (m + 1) s' := by
  cases policy with
  | bounded timeout interval =>
    have hrow := attains_pollTimes hpoll (max interval.toNat 1) h (hallowed _ rfl)
      (by simpa only [Nat.zero_add] using hmisses)
      (by simpa only [Nat.zero_add, WaitPolicy.maxPolls, Option.some.injEq, eq_comm] using hend)
    rw [Event.sleeps_pauseEvents]
    rwa [Nat.zero_add] at hrow
  | infinite =>
    have hholds : answer m = true := hend.resolve_right (Option.some_ne_none m ·.symm)
    have hquiet : (List.replicate m (sleeps part (pauseEvents part .infinite))).flatten = [] :=
      List.flatten_replicate_nil
    rw [hquiet]
    cases m with
    | zero =>
      rw [Nat.zero_add, Nat.one_mul]
      exact attains_pollOr_last hpoll h (.inl hholds)
    | succ m =>
      have hlimit : (m + 1 + 1) * cost = cost + (m + 1) * cost := by
        rw [Nat.succ_mul (m + 1), Nat.add_comm]
      have hplace : ∀ k, 0 + 1 + k = k + 1 := fun k => by omega
      have hmisses' : ∀ k < m, answer (0 + 1 + k) = false := by
        intro k hk
        rw [hplace]
        exact hmisses (k + 1) (Nat.succ_lt_succ hk)
      rw [hlimit]
      refine attains_pollOr_of_miss hpoll h (hmisses 0 (Nat.succ_pos m)) fun s' hinv => ?_
      have hrest := attains_pollOn_allowance hpoll hinv hcost hmisses' (by rwa [hplace])
      rw [hplace] at hrest
      exact hrest

/-! ## Polling in vain -/

section Vain

variable {rel : σ → List Event → σ → Prop} (hchained : Proc.Chained rel)
  (halways : Proc.Always rel ready) (hmisses : ∀ i, answer i = false)
include hchained halways hmisses

/-- If no poll holds, polls go on from the state that the first `m` of them leave. -/
theorem strands_pollOn_vain {m i fuel : Nat} {s : σ} (h : inv i s) (hle : m ≤ fuel) :
    (pollOn ready fuel).Strands s (m * cost)
      fun s' => ∃ mid ev, inv (i + m) mid ∧ rel mid ev s' := by
  induction m generalizing i fuel s with
  | zero =>
    have hrel : Proc.Always rel (pollOn ready fuel) := by
      clear hle
      induction fuel with
      | zero => exact Proc.always_halt hchained .exhausted
      | succ fuel ih => exact Always.pollOr hchained halways ih
    exact fun n => ⟨(strands_pollOn hpoll h (fun k _ => hmisses (i + k)) n).1,
      fun _ => ⟨s, _, h, hrel s n⟩⟩
  | succ m ih =>
    obtain ⟨fuel, rfl⟩ := Nat.exists_eq_add_of_le' (Nat.le_trans (Nat.succ_pos m) hle)
    have hplace : i + (m + 1) = i + 1 + m := by omega
    rw [Nat.succ_mul, Nat.add_comm (m * cost), hplace]
    refine Proc.Attains.bind_strands ((hpoll i s h).mono (Nat.le_refl cost) ?_)
    rintro ev _ s' ⟨rfl, -, hinv⟩
    rw [hmisses]
    exact ih hinv (Nat.le_of_succ_le_succ hle)

/-- The same, with as many polls as are left to spend. -/
theorem strands_pollOn_allowance {m i : Nat} {s : σ} (h : inv i s) (hcost : 0 < cost) :
    (Proc.allowance >>= pollOn ready).Strands s (m * cost)
      fun s' => ∃ mid ev, inv (i + m) mid ∧ rel mid ev s' := by
  intro n
  rw [Proc.allowance_bind_apply]
  refine ⟨(strands_pollOn hpoll h (fun k _ => hmisses (i + k)) n).1, fun hn => ?_⟩
  have hle : m ≤ n := Nat.le_trans (Nat.le_mul_of_pos_right m hcost) hn
  exact (strands_pollOn_vain hpoll hchained halways hmisses h hle n).2 hn

/-- **If no poll holds, polling without bound goes on and on**, after any number of polls. -/
theorem strands_pollUntil {m : Nat} {s : σ} (h : inv 0 s) (hcost : 0 < cost) :
    (pollUntil part .infinite ready).Strands s ((m + 1) * cost)
      fun s' => ∃ mid ev, inv (m + 1) mid ∧ rel mid ev s' := by
  rw [Nat.succ_mul, Nat.add_comm (m * cost)]
  refine Proc.Attains.bind_strands ((hpoll 0 s h).mono (Nat.le_refl cost) ?_)
  rintro ev _ s' ⟨rfl, -, hinv⟩
  have hrest := strands_pollOn_allowance hpoll hchained halways hmisses (m := m) hinv hcost
  rw [hmisses]
  rwa [Nat.zero_add, Nat.add_comm 1 m] at hrest

end Vain

end Poll

end TwoWire
