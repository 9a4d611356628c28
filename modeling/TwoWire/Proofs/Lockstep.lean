import TwoWire.Proofs.Ensures
import TwoWire.Proofs.Trace

/-!
# Runs in step

Two runs of one procedure start in related states, the second with at least the allowance of the
first. `Exec.Within` says that the first goes no further than the second: its accesses are the first
of the second's, and it ends as the second does unless it gives up. `Proc.Extends` says this of a
procedure for all related states, `Proc.Steady` of one that never gives up, and both follow the ways
of building procedures.

The runs part only where the second polls more often. There `Exec.Outpaced` keeps what is known: the
second has shown all that the first has, and polls once more from a related state. That is so
whenever the policy of the first runs out before that of the second (`polled_pollUntil`).
-/

namespace TwoWire

open Event

variable {σ τ α β γ ε : Type}

namespace WaitPolicy

/-- The second policy allows at least as many polls; without bound it allows any number. -/
def NoLonger (first second : WaitPolicy) : Prop :=
  ∀ most ∈ second.maxPolls, ∃ fewer ∈ first.maxPolls, fewer ≤ most

instance (first second : WaitPolicy) : Decidable (first.NoLonger second) :=
  inferInstanceAs (Decidable (∀ most ∈ second.maxPolls, ∃ fewer ∈ first.maxPolls, fewer ≤ most))

/-- No policy but the one without bound is as long as that. -/
theorem NoLonger.eq_infinite {second : WaitPolicy} (h : infinite.NoLonger second) :
    second = infinite := by
  cases second with
  | infinite => rfl
  | bounded timeout interval =>
    obtain ⟨fewer, hfewer, -⟩ := h _ rfl
    cases hfewer

end WaitPolicy

/-! ## Two runs -/

namespace Exec

/-- The longer run ends as the shorter one does. -/
structure Agrees (related : σ → σ → Prop) (short long : Exec σ α) : Prop where
  accesses_eq : accesses long.events = accesses short.events
  outcome_eq : long.outcome = short.outcome
  related : related short.state long.state
  left_le : short.left ≤ long.left

/-- The shorter run goes no further than the longer one. -/
structure Within (related : σ → σ → Prop) (gaveUp : α → Prop) (short long : Exec σ α) : Prop where
  isPrefix : accesses short.events <+: accesses long.events
  answer : ∀ a, short.outcome = .ok a → gaveUp a ∨ short.Agrees related long

/-- The longer run has shown what the shorter one has, and what `glance` shows next. -/
def Outpaced (related : σ → σ → Prop) (glance : Proc σ γ) (short long : Exec σ α) : Prop :=
  ∃ t m, related short.state t ∧ short.left ≤ m
    ∧ accesses short.events ++ accesses (glance t m).events <+: accesses long.events

variable {related : σ → σ → Prop} {gaveUp gaveUp' : α → Prop} {short long : Exec σ α}

theorem Within.mono (h : short.Within related gaveUp long) (himp : ∀ a, gaveUp a → gaveUp' a) :
    short.Within related gaveUp' long :=
  ⟨h.isPrefix, fun a ha => (h.answer a ha).imp_left (himp a)⟩

theorem Agrees.within (h : short.Agrees related long) : short.Within related gaveUp long :=
  ⟨h.accesses_eq ▸ List.prefix_refl _, fun _ _ => Or.inr h⟩

/-- A run without an answer goes no further if it shows no more. -/
theorem within_of_halt {halt : Halt} (hhalt : short.outcome = .error halt)
    (hshown : accesses short.events <+: accesses long.events) :
    short.Within related gaveUp long := by
  refine ⟨hshown, fun a ha => ?_⟩
  rw [hhalt] at ha
  cases ha

theorem Outpaced.mono {glance : Proc σ γ} {glance' : Proc σ β}
    (h : short.Outpaced related glance long)
    (himp : ∀ t m, accesses (glance' t m).events <+: accesses (glance t m).events) :
    short.Outpaced related glance' long := by
  obtain ⟨t, m, hrelated, hleft, hprefix⟩ := h
  exact ⟨t, m, hrelated, hleft, ((List.prefix_append_right_inj _).mpr (himp t m)).trans hprefix⟩

end Exec

namespace Proc

variable {related : σ → σ → Prop} {gaveUp : α → Prop} {gaveUp' : β → Prop}

/-- What a first step shows, the whole shows first. -/
theorem accesses_prefix_bind (p : Proc σ α) (f : α → Proc σ β) (s : σ) (n : Nat) :
    accesses (p s n).events <+: accesses ((p >>= f) s n).events := by
  cases hp : (p s n).outcome with
  | error halt =>
    have hshown : ((p >>= f) s n).events = (p s n).events := congrArg Exec.events (bind_of_halt hp)
    exact hshown ▸ List.prefix_refl _
  | ok a =>
    rw [bind_of_ok hp, accesses_append]
    exact List.prefix_append _ _

section Bind

variable {p q : Proc σ α} {f g : α → Proc σ β} {s t : σ} {n m : Nat}

/-- After steps that agree, the whole goes as far as the rest does. -/
theorem agrees_bind {a : α} (hp : (p s n).outcome = .ok a)
    (hagrees : (p s n).Agrees related (q t m))
    (hrest : (f a (p s n).state (p s n).left).Agrees related (g a (q t m).state (q t m).left)) :
    ((p >>= f) s n).Agrees related ((q >>= g) t m) := by
  have hq : (q t m).outcome = .ok a := hagrees.outcome_eq.trans hp
  rw [bind_of_ok hp, bind_of_ok hq]
  refine ⟨?_, hrest.outcome_eq, hrest.related, hrest.left_le⟩
  rw [accesses_append, accesses_append, hagrees.accesses_eq, hrest.accesses_eq]

theorem within_bind (h : (p s n).Within related gaveUp (q t m))
    (hgaveUp : ∀ a, (p s n).outcome = .ok a → gaveUp a →
      ((p >>= f) s n).Within related gaveUp' ((q >>= g) t m))
    (hrest : ∀ a, (p s n).outcome = .ok a → (p s n).Agrees related (q t m) →
      (f a (p s n).state (p s n).left).Within related gaveUp'
        (g a (q t m).state (q t m).left)) :
    ((p >>= f) s n).Within related gaveUp' ((q >>= g) t m) := by
  cases hp : (p s n).outcome with
  | error halt =>
    rw [bind_of_halt hp]
    exact Exec.within_of_halt rfl (h.isPrefix.trans (accesses_prefix_bind q g t m))
  | ok a =>
    rcases h.answer a hp with hdone | hagrees
    · exact hgaveUp a hp hdone
    · have hnext := hrest a hp hagrees
      have hq : (q t m).outcome = .ok a := hagrees.outcome_eq.trans hp
      refine ⟨?_, fun b hb => ?_⟩
      · rw [bind_of_ok hp, bind_of_ok hq, accesses_append, accesses_append, hagrees.accesses_eq]
        exact (List.prefix_append_right_inj _).mpr hnext.isPrefix
      · rw [bind_of_ok hp] at hb
        exact (hnext.answer b hb).imp_right (agrees_bind hp hagrees)

/-- A run that has been outpaced gives up within what the other one shows next. -/
theorem within_bind_of_outpaced {glance : Proc σ γ} {a : α} (hp : (p s n).outcome = .ok a)
    (h : (p s n).Outpaced related glance (q t m))
    (hshows : ∀ {s' t' n' m'}, related s' t' → n' ≤ m' →
      accesses (f a s' n').events <+: accesses (glance t' m').events)
    (hends : ∀ s' n' b, (f a s' n').outcome = .ok b → gaveUp' b) :
    ((p >>= f) s n).Within related gaveUp' ((q >>= g) t m) := by
  obtain ⟨t', m', hrelated, hleft, hprefix⟩ := h
  rw [bind_of_ok hp]
  refine ⟨?_, fun b hb => Or.inl (hends _ _ b hb)⟩
  rw [accesses_append]
  have hmore := (List.prefix_append_right_inj (accesses (p s n).events)).mpr
    (hshows hrelated hleft)
  exact (hmore.trans hprefix).trans (accesses_prefix_bind q g t m)

theorem outpaced_bind {glance : Proc σ γ} {a : α} (hp : (p s n).outcome = .ok a)
    (hagrees : (p s n).Agrees related (q t m))
    (h : (f a (p s n).state (p s n).left).Outpaced related glance
      (g a (q t m).state (q t m).left)) :
    ((p >>= f) s n).Outpaced related glance ((q >>= g) t m) := by
  have hq : (q t m).outcome = .ok a := hagrees.outcome_eq.trans hp
  obtain ⟨t', m', hrelated, hleft, hprefix⟩ := h
  rw [bind_of_ok hp, bind_of_ok hq]
  refine ⟨t', m', hrelated, hleft, ?_⟩
  rw [accesses_append, accesses_append, hagrees.accesses_eq, List.append_assoc]
  exact (List.prefix_append_right_inj _).mpr hprefix

end Bind

/-! ## One procedure -/

/-- From related states and with no less to spend, the procedure goes at least as far. -/
def Extends (related : σ → σ → Prop) (gaveUp : α → Prop) (p : Proc σ α) : Prop :=
  ∀ ⦃s t n m⦄, related s t → n ≤ m → (p s n).Within related gaveUp (p t m)

/-- An answer is the same from related states, whatever more there is to spend. -/
def Steady (related : σ → σ → Prop) (p : Proc σ α) : Prop := p.Extends related fun _ => False

theorem steady_of_agrees {p : Proc σ α}
    (h : ∀ s t n m, related s t → n ≤ m → (p s n).Agrees related (p t m)) :
    p.Steady related :=
  fun s t n m hst hnm => (h s t n m hst hnm).within

theorem steady_pure (a : α) : (pure a : Proc σ α).Steady related :=
  steady_of_agrees fun _ _ _ _ hst hnm => ⟨rfl, rfl, hst, hnm⟩

theorem Steady.extends {p : Proc σ α} (hp : p.Steady related) : p.Extends related gaveUp :=
  fun _ _ _ _ hst hnm => (hp hst hnm).mono fun _ => False.elim

theorem steady_modify {f : σ → σ} (hf : ∀ {s t}, related s t → related (f s) (f t)) :
    (modify f).Steady related :=
  steady_of_agrees fun _ _ _ _ hst hnm => ⟨rfl, rfl, hf hst, hnm⟩

theorem Steady.bind {p : Proc σ α} {f : α → Proc σ β} (hp : p.Steady related)
    (hf : ∀ a, (f a).Extends related gaveUp') : (p >>= f).Extends related gaveUp' :=
  fun _ _ _ _ hst hnm => within_bind (hp hst hnm) (fun _ _ hno => hno.elim)
    fun a _ hagrees => hf a hagrees.related hagrees.left_le

/-- What has been given up is given up at the end. -/
theorem Extends.bind {p : Proc σ α} {f : α → Proc σ β} (hp : p.Extends related gaveUp)
    (hgaveUp : ∀ a, gaveUp a → ∃ b, gaveUp' b ∧ f a = pure b)
    (hf : ∀ a, (f a).Extends related gaveUp') : (p >>= f).Extends related gaveUp' := by
  intro s t n m hst hnm
  refine within_bind (hp hst hnm) (fun a ha hdone => ?_) fun a _ hagrees =>
    hf a hagrees.related hagrees.left_le
  obtain ⟨b, hb, hfa⟩ := hgaveUp a hdone
  rw [bind_of_ok ha, hfa, pure_apply]
  refine ⟨?_, fun b' hb' => Or.inl (Except.ok.inj hb' ▸ hb)⟩
  rw [List.append_nil]
  exact (hp hst hnm).isPrefix.trans (accesses_prefix_bind p f t m)

theorem Extends.map {p : Proc σ α} {f : α → β} (hp : p.Extends related gaveUp)
    (hgaveUp : ∀ a, gaveUp a → gaveUp' (f a)) : (f <$> p).Extends related gaveUp' := by
  rw [map_eq_pure_bind]
  exact hp.bind (fun a ha => ⟨f a, hgaveUp a ha, rfl⟩) fun a => (steady_pure (f a)).extends

theorem Steady.zoom {get : σ → τ} {set : τ → σ → σ} {related' : τ → τ → Prop} {q : Proc τ α}
    (hq : q.Steady related') (hget : ∀ {s t}, related s t → related' (get s) (get t))
    (hset : ∀ {s t u v}, related s t → related' u v → related (set u s) (set v t)) :
    (q.zoom get set).Steady related := by
  intro s t n m hst hnm
  have h := hq (hget hst) hnm
  refine ⟨h.isPrefix, fun a ha => (h.answer a ha).imp_right fun hagrees => ?_⟩
  exact ⟨hagrees.accesses_eq, hagrees.outcome_eq, hset hst hagrees.related, hagrees.left_le⟩

/-! ## A value beside the state -/

/-- The states are related, and the same value stands beside them. -/
def Beside (related : σ → σ → Prop) (short long : σ × τ) : Prop :=
  related short.1 long.1 ∧ short.2 = long.2

theorem Steady.onFst {p : Proc σ α} (hp : p.Steady related) :
    (p.onFst : Proc (σ × τ) α).Steady (Beside related) := by
  refine hp.zoom (fun h => h.1) ?_
  rintro ⟨_, value⟩ ⟨_, _⟩ short long ⟨-, rfl⟩ hrelated
  exact ⟨hrelated, rfl⟩

section WithLocal

variable {p q : Proc (σ × τ) α} {value : τ} {s t : σ} {n m : Nat}

theorem within_withLocal (h : (p (s, value) n).Within (Beside related) gaveUp (q (t, value) m)) :
    (p.withLocal value s n).Within related (fun answer => gaveUp answer.1)
      (q.withLocal value t m) := by
  refine ⟨h.isPrefix, fun answer hanswer => ?_⟩
  cases hp : (p (s, value) n).outcome with
  | error halt => simp [withLocal, hp, Except.map] at hanswer
  | ok a =>
    obtain rfl : (a, (p (s, value) n).state.2) = answer := by
      simpa [withLocal, hp, Except.map] using hanswer
    refine (h.answer a hp).imp_right fun hagrees => ?_
    refine ⟨hagrees.accesses_eq, ?_, hagrees.related.1, hagrees.left_le⟩
    simp only [withLocal, hagrees.outcome_eq, hagrees.related.2]

theorem outpaced_withLocal {glance : Proc σ γ}
    (h : (p (s, value) n).Outpaced (Beside related) glance.onFst (q (t, value) m)) :
    (p.withLocal value s n).Outpaced related glance (q.withLocal value t m) := by
  obtain ⟨t', m', hrelated, hleft, hprefix⟩ := h
  exact ⟨t'.1, m', hrelated.1, hleft, hprefix⟩

end WithLocal

/-! ## What an answer costs -/

/-- With an answer, no more is left than there was. -/
def Thrifty (p : Proc σ α) : Prop := ∀ s n a, (p s n).outcome = .ok a → (p s n).left ≤ n

/-- With nothing to spend there is no access and no answer. -/
def Stops (p : Proc σ α) : Prop :=
  ∀ s, accesses (p s 0).events = [] ∧ ∃ halt, (p s 0).outcome = .error halt

/-- Every answer costs something. -/
structure Costs (p : Proc σ α) : Prop where
  stops : p.Stops
  left_lt : ∀ s n a, (p s n).outcome = .ok a → (p s n).left < n

section Costs

variable {p : Proc σ α} {f : α → Proc σ β}

theorem thrifty_pure (a : α) : (pure a : Proc σ α).Thrifty := fun _ _ _ _ => Nat.le_refl _

theorem thrifty_modify (f : σ → σ) : (modify f).Thrifty := fun _ _ _ _ => Nat.le_refl _

theorem Costs.thrifty (hp : p.Costs) : p.Thrifty := by
  intro s n a hok
  exact Nat.le_of_lt (hp.left_lt s n a hok)

theorem Thrifty.bind (hp : p.Thrifty) (hf : ∀ a, (f a).Thrifty) : (p >>= f).Thrifty := by
  intro s n b hb
  cases h : (p s n).outcome with
  | error halt =>
    rw [bind_of_halt h] at hb
    cases hb
  | ok a =>
    rw [bind_of_ok h] at hb ⊢
    exact Nat.le_trans (hf a _ _ b hb) (hp s n a h)

theorem Thrifty.zoom {get : σ → τ} {set : τ → σ → σ} {q : Proc τ α} (hq : q.Thrifty) :
    (q.zoom get set).Thrifty :=
  fun s n => hq (get s) n

theorem Stops.bind (hp : p.Stops) : (p >>= f).Stops := by
  intro s
  obtain ⟨hnone, halt, hhalt⟩ := hp s
  rw [bind_of_halt hhalt]
  exact ⟨hnone, halt, rfl⟩

theorem stops_sleep_bind {q : Proc σ β} (hq : q.Stops) (part : Part) (us : Nat) :
    (sleep part us >>= fun _ => q).Stops := by
  intro s
  obtain ⟨hnone, hhalt⟩ := hq s
  rw [bind_of_ok rfl, accesses_append]
  refine ⟨?_, hhalt⟩
  show accesses ((sleepParts us).map (.sleep part)) ++ accesses (q s 0).events = []
  rw [accesses_sleeps, hnone]
  rfl

theorem Costs.bind (hp : p.Costs) (hf : ∀ a, (f a).Thrifty) : (p >>= f).Costs := by
  refine ⟨hp.stops.bind, fun s n b hb => ?_⟩
  cases h : (p s n).outcome with
  | error halt =>
    rw [bind_of_halt h] at hb
    cases hb
  | ok a =>
    rw [bind_of_ok h] at hb ⊢
    exact Nat.lt_of_le_of_lt (hf a _ _ b hb) (hp.left_lt s n a h)

theorem Costs.zoom {get : σ → τ} {set : τ → σ → σ} {q : Proc τ α} (hq : q.Costs) :
    (q.zoom get set).Costs :=
  ⟨fun s => hq.stops (get s), fun s n => hq.left_lt (get s) n⟩

end Costs

end Proc

/-! ## Polling -/

namespace Exec

/-- The polls of the shorter run are among those of the longer one, which may go on polling. -/
def Polled (related : σ → σ → Prop) (ready : Proc σ γ) (short long : Exec σ (Except ε Bool)) :
    Prop :=
  short.Within related (fun answer => answer = .ok false ∧ short.Outpaced related ready long) long

end Exec

section Poll

variable {related : σ → σ → Prop} {ready : Proc σ (Except ε Bool)} {s t : σ} {n m : Nat}
  {part : Part}

theorem polled_bind {p q : Proc σ α} {f g : α → Proc σ (Except ε Bool)}
    (h : (p s n).Within related (fun _ => False) (q t m))
    (hrest : ∀ a, (p s n).outcome = .ok a → (p s n).Agrees related (q t m) →
      (f a (p s n).state (p s n).left).Polled related ready (g a (q t m).state (q t m).left)) :
    ((p >>= f) s n).Polled related ready ((q >>= g) t m) := by
  refine Proc.within_bind h (fun _ _ hno => hno.elim) fun a ha hagrees => ?_
  refine (hrest a ha hagrees).mono fun answer hdone => ?_
  exact ⟨hdone.1, Proc.outpaced_bind ha hagrees hdone.2⟩

/-- A pause shows no access. -/
theorem agrees_sleep (us us' : Nat) (hst : related s t) (hnm : n ≤ m) :
    (sleep part us s n).Agrees related (sleep part us' t m) := by
  refine ⟨?_, rfl, hst, hnm⟩
  show accesses ((sleepParts us').map (.sleep part)) = accesses ((sleepParts us).map (.sleep part))
  rw [accesses_sleeps, accesses_sleeps]

/-- A poll more, unless it settles the matter. -/
theorem polled_pollOr {next next' : Proc σ (Except ε Bool)} (hsteady : ready.Steady related)
    (hcosts : ready.Costs) (hst : related s t) (hnm : n ≤ m)
    (hnext : ∀ s' t' n' m', related s' t' → n' ≤ m' → n' < n →
      (next s' n').Polled related ready (next' t' m')) :
    (pollOr ready next s n).Polled related ready (pollOr ready next' t m) := by
  refine polled_bind (hsteady hst hnm) fun a ha hagrees => ?_
  match a with
  | .ok false =>
    exact hnext _ _ _ _ hagrees.related hagrees.left_le (hcosts.left_lt s n _ ha)
  | .ok true => exact (Proc.steady_pure _).extends hagrees.related hagrees.left_le
  | .error _ => exact (Proc.steady_pure _).extends hagrees.related hagrees.left_le

/-- The shorter run has made its last poll. -/
theorem polled_expired {long : Exec σ (Except ε Bool)} (hst : related s t) (hnm : n ≤ m)
    (hshows : accesses (ready t m).events <+: accesses long.events) :
    ((pure (.ok false) : Proc σ (Except ε Bool)) s n).Polled related ready long := by
  refine ⟨List.nil_prefix, fun answer hanswer => Or.inl ⟨(Except.ok.inj hanswer).symm, ?_⟩⟩
  exact ⟨t, m, hst, hnm, hshows⟩

variable (hsteady : ready.Steady related) (hcosts : ready.Costs)
include hsteady hcosts

theorem polled_pollTimes {pause pause' count count' : Nat} (hcount : count ≤ count')
    (hst : related s t) (hnm : n ≤ m) :
    (pollTimes part pause ready count s n).Polled related ready
      (pollTimes part pause' ready count' t m) := by
  induction count generalizing count' s t n m with
  | zero =>
    cases count' with
    | zero => exact (Proc.steady_pure _).extends hst hnm
    | succ count' =>
      refine polled_expired hst hnm ?_
      show _ <+: accesses (((sleepParts pause').map (.sleep part)) ++ _)
      rw [accesses_append, accesses_sleeps]
      exact Proc.accesses_prefix_bind ready _ t m
  | succ count ih =>
    obtain ⟨more, rfl⟩ := Nat.exists_eq_add_of_le' (Nat.le_trans (Nat.succ_pos count) hcount)
    refine polled_bind (agrees_sleep pause pause' hst hnm).within fun _ _ hagrees => ?_
    refine polled_pollOr hsteady hcosts hagrees.related hagrees.left_le fun _ _ _ _ hst hnm _ => ?_
    exact ih (Nat.le_of_succ_le_succ hcount) hst hnm

/-- Polling without bound goes on as long as there is anything to spend. -/
theorem polled_pollTimes_pollOn {pause count fuel : Nat} (hfuel : n ≤ fuel)
    (hst : related s t) (hnm : n ≤ m) :
    (pollTimes part pause ready count s n).Polled related ready (pollOn ready fuel t m) := by
  induction count generalizing fuel s t n m with
  | zero =>
    cases fuel with
    -- nothing is left for the poll that would come next, which then shows nothing
    | zero => exact polled_expired hst hfuel ((hcosts.stops t).1 ▸ List.nil_prefix)
    | succ fuel => exact polled_expired hst hnm (Proc.accesses_prefix_bind ready _ t m)
  | succ count ih =>
    cases fuel with
    | zero =>
      obtain rfl : n = 0 := Nat.le_zero.mp hfuel
      obtain ⟨hnone, halt, hhalt⟩ := Proc.stops_sleep_bind hcosts.stops.bind part pause s
      exact Exec.within_of_halt hhalt (hnone ▸ List.nil_prefix)
    | succ fuel =>
      have hpause : (sleep part pause s n).Agrees related ((pure () : Proc σ Unit) t m) :=
        ⟨(accesses_sleeps part _).symm, rfl, hst, hnm⟩
      rw [← pure_bind () fun _ => pollOn ready (fuel + 1)]
      refine polled_bind hpause.within fun _ _ hagrees => ?_
      refine polled_pollOr hsteady hcosts hagrees.related hagrees.left_le
        fun _ _ _ _ hst hnm hless => ?_
      exact ih (Nat.le_of_lt_succ (Nat.lt_of_lt_of_le hless hfuel)) hst hnm

theorem polled_pollOn {fuel fuel' : Nat} (hfuel : fuel ≤ fuel') (hst : related s t)
    (hnm : n ≤ m) :
    (pollOn ready fuel s n).Polled related ready (pollOn ready fuel' t m) := by
  induction fuel generalizing fuel' s t n m with
  -- nothing has been shown, and there is no answer
  | zero => exact Exec.within_of_halt rfl List.nil_prefix
  | succ fuel ih =>
    obtain ⟨more, rfl⟩ := Nat.exists_eq_add_of_le' (Nat.le_trans (Nat.succ_pos fuel) hfuel)
    exact polled_pollOr hsteady hcosts hst hnm fun _ _ _ _ hst hnm _ =>
      ih (Nat.le_of_succ_le_succ hfuel) hst hnm

/--
**A more patient polling makes all the polls of a less patient one.** If that one gives up, the
other makes at least one more.
-/
theorem polled_pollUntil {first second : WaitPolicy} (hpatience : first.NoLonger second)
    (hst : related s t) (hnm : n ≤ m) :
    (pollUntil part first ready s n).Polled related ready (pollUntil part second ready t m) := by
  refine polled_pollOr hsteady hcosts hst hnm fun s t n m hst hnm _ => ?_
  cases hsecond : second.maxPolls with
  | none =>
    cases hfirst : first.maxPolls with
    | none =>
      simp only [Proc.allowance_bind_apply]
      exact polled_pollOn hsteady hcosts hnm hst hnm
    | some fewer =>
      simp only [Proc.allowance_bind_apply]
      exact polled_pollTimes_pollOn hsteady hcosts hnm hst hnm
  | some most =>
    obtain ⟨fewer, hfirst, hle⟩ := hpatience most hsecond
    rw [Option.mem_def.mp hfirst]
    exact polled_pollTimes hsteady hcosts hle hst hnm

end Poll

end TwoWire
