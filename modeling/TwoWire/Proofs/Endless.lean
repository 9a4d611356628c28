import TwoWire.Proofs.Patience
import TwoWire.Proofs.Spending

/-!
# Polling without bound

Polling without bound is a poll, and polling without bound again unless that settled the matter
(`pollUntil_infinite_eq`). It recurses on the allowance that is left, so this needs a condition that
costs something to poll and that cannot be polled with nothing to spend (`Proc.Starves`).

Two rules follow, for the two ways in which it can go. If each poll that does not settle the matter
leaves less of some budget, the polling ends within the budget (`spends_pollUntil_of_budget`). If no
poll ever settles it, the polling shows one poll after another until nothing is left to spend
(`usesUp_pollUntil`).
-/

namespace TwoWire

namespace Proc

variable {σ τ α β γ : Type}

/-! ## Nothing to spend -/

/-- With nothing to spend, the procedure does nothing and has no answer. -/
def Starves (p : Proc σ α) : Prop := ∀ s, p s 0 = ⟨[], .error .exhausted, s, 0⟩

theorem Starves.bind {p : Proc σ α} {f : α → Proc σ β} (hp : p.Starves) : (p >>= f).Starves := by
  intro s
  have hout : (p s 0).outcome = .error .exhausted := congrArg Exec.outcome (hp s)
  rw [bind_of_halt hout, hp s]

theorem Starves.zoom {get : σ → τ} {set : τ → σ → σ} {q : Proc τ α} (hq : q.Starves)
    (hset : ∀ s, set (get s) s = s) : (q.zoom get set).Starves := by
  intro s
  simp only [Proc.zoom, hq (get s), hset s]

/-! ## Everything spent -/

end Proc

/-- A run that had `n` to spend has spent it all on showing items, one for each access. -/
structure Exec.AllSpent {σ α γ : Type} (shown : γ → Event) (n : Nat) (run : Exec σ α) : Prop where
  outcome : run.outcome = .error .exhausted
  left : run.left = 0
  events : ∃ items : List γ, items.length = n ∧ run.events = items.map shown

namespace Proc

/-- However much there is to spend, it is all spent on showing items. -/
def UsesUp (p : Proc σ α) (s : σ) (shown : γ → Event) : Prop := ∀ n, (p s n).AllSpent shown n

section UsesUp

variable {p : Proc σ α} {s : σ} {shown : γ → Event}

/-- After a step that never ends there is nothing. -/
theorem UsesUp.bind {f : α → Proc σ β} (h : p.UsesUp s shown) : (p >>= f).UsesUp s shown := by
  intro n
  obtain ⟨hout, hleft, hshown⟩ := h n
  rw [bind_of_halt hout]
  exact ⟨rfl, hleft, hshown⟩

theorem UsesUp.get_bind {f : σ → Proc σ α} (h : (f s).UsesUp s shown) :
    (get >>= f).UsesUp s shown := by
  intro n
  rw [get_bind_apply]
  exact h n

end UsesUp

end Proc

/-! ## Polling -/

section Poll

variable {σ γ ε : Type} {ready : Proc σ (Except ε Bool)}

/-- The postcondition of one poll within a budget: it ends with `post`, or leaves less to spend. -/
def BudgetStep (budget : Nat → σ → Prop) (post : Except ε Bool → σ → Prop) (m spent : Nat) :
    Except ε Bool → σ → Prop
  | .ok false, s => ∃ rest < m, spent + rest ≤ m ∧ budget rest s
  | settled, s => post settled s

/-- What follows a first poll matters only where that poll leaves the matter open. -/
theorem pollOr_apply_congr {next next' : Proc σ (Except ε Bool)} {s : σ} {n : Nat}
    (h : (ready s n).outcome = .ok (.ok false) →
      next (ready s n).state (ready s n).left = next' (ready s n).state (ready s n).left) :
    pollOr ready next s n = pollOr ready next' s n := by
  unfold pollOr
  cases hpoll : (ready s n).outcome with
  | error halt => rw [Proc.bind_of_halt hpoll, Proc.bind_of_halt hpoll]
  | ok settled =>
    rw [Proc.bind_of_ok hpoll, Proc.bind_of_ok hpoll]
    match settled with
    | .ok false => simp only [h hpoll]
    | .ok true => rfl
    | .error _ => rfl

variable (part : Part) (hstarves : ready.Starves) (hcosts : ready.Costs)
include hstarves hcosts

/-- No more polls can be made than there is to spend. -/
theorem pollOn_apply_of_le {fuel n : Nat} (hle : n ≤ fuel) (s : σ) :
    pollOn ready fuel s n = pollOn ready n s n := by
  induction n using Nat.strong_induction_on generalizing fuel s with
  | _ n ih =>
    match n, fuel, hle with
    | 0, 0, _ => rfl
    | 0, fuel + 1, _ => exact hstarves.bind s
    | n + 1, fuel + 1, hle =>
      refine pollOr_apply_congr fun hpoll => ?_
      have hleft : (ready s (n + 1)).left < n + 1 := hcosts.left_lt s (n + 1) _ hpoll
      have hle' : (ready s (n + 1)).left ≤ n := Nat.le_of_lt_succ hleft
      rw [ih _ hleft (Nat.le_trans hle' (Nat.le_of_succ_le_succ hle)), ih _ hleft hle']

/-- **Polling without bound is a poll, and then polling without bound.** -/
theorem pollUntil_infinite_eq :
    pollUntil part .infinite ready = pollOr ready (pollUntil part .infinite ready) := by
  funext s n
  refine pollOr_apply_congr fun _ => ?_
  generalize (ready s n).state = s'
  generalize (ready s n).left = left
  show (Proc.allowance >>= fun fuel => pollOn ready fuel) s' left
    = pollOr ready (Proc.allowance >>= fun fuel => pollOn ready fuel) s' left
  rw [Proc.allowance_bind_apply]
  cases left with
  | zero => exact (hstarves.bind s').symm
  | succ n =>
    refine pollOr_apply_congr fun hpoll => ?_
    rw [Proc.allowance_bind_apply]
    exact pollOn_apply_of_le hstarves hcosts
      (Nat.le_of_lt_succ (hcosts.left_lt s' (n + 1) _ hpoll)) _

/--
**Polling without bound ends within a budget**, if each poll that leaves the matter open also leaves
less of the budget than there was.
-/
theorem spends_pollUntil_of_budget {flaw : Prop} {post : Except ε Bool → σ → Prop}
    (budget : Nat → σ → Prop)
    (hready : ∀ m s, budget m s →
      ready.Spends flaw s m fun spent => BudgetStep budget post m spent)
    {m : Nat} {s : σ} (hbudget : budget m s) :
    (pollUntil part .infinite ready).Spends flaw s m fun _ settled s' => post settled s' := by
  induction m using Nat.strong_induction_on generalizing s with
  | _ m ih =>
    rw [pollUntil_infinite_eq part hstarves hcosts]
    refine Proc.Spends.bind_within ((hready m s hbudget).mono (Nat.le_refl m) ?_) (Nat.le_refl m)
    intro spent settled s' _ hpoll hspent
    match settled with
    | .ok false =>
      obtain ⟨rest, hrest, htotal, hbudget'⟩ := hpoll
      exact ⟨rest, htotal, ih rest hrest hbudget'⟩
    | .ok true => exact ⟨0, hspent, Proc.spends_pure hpoll⟩
    | .error _ => exact ⟨0, hspent, Proc.spends_pure hpoll⟩

/-- **Polling without bound uses up everything**, if no poll settles the matter. -/
theorem usesUp_pollUntil {shown : γ → Event} {inv : σ → Prop}
    (hpoll : ∀ s n, inv s → ∃ item s', ready s (n + 1) = ⟨[shown item], .ok (.ok false), s', n⟩
      ∧ inv s') {s : σ} (hinv : inv s) :
    (pollUntil part .infinite ready).UsesUp s shown := by
  intro n
  induction n generalizing s with
  | zero =>
    have hnothing : pollUntil part .infinite ready s 0 = _ := hstarves.bind s
    rw [hnothing]
    exact ⟨rfl, rfl, [], rfl, rfl⟩
  | succ n ih =>
    obtain ⟨item, s', hrun, hinv'⟩ := hpoll s n hinv
    have hopen : (ready s (n + 1)).outcome = .ok (.ok false) := congrArg Exec.outcome hrun
    obtain ⟨hout, hleft, items, hlen, hevents⟩ := ih hinv'
    rw [pollUntil_infinite_eq part hstarves hcosts, pollOr, Proc.bind_of_ok hopen, hrun]
    refine ⟨hout, hleft, item :: items, congrArg Nat.succ hlen, ?_⟩
    rw [List.map_cons, ← hevents]
    rfl

end Poll

/-! ## The engine's polls -/

theorem RegisterBlock.starves_load {β : Type} [RegisterBlock β] (width : Width) (offset : Nat) :
    (RegisterBlock.load width offset : Proc β width.Value).Starves :=
  fun _ => rfl

namespace Engine

variable {β κ : Type} [RegisterBlock β]

theorem starves_status : (status : Proc (Engine β κ) Status).Starves := by
  have hload : (onRegisters (RegisterBlock.load .byte Offset.status) :
      Proc (Engine β κ) UInt8).Starves :=
    (RegisterBlock.starves_load .byte Offset.status).zoom fun _ => rfl
  exact hload.bind

theorem starves_flushCounting : (flushCounting : Proc (Engine β κ × Nat) _).Starves := by
  have hflush : (flush rxFifoDepth : Proc (Engine β κ) _).Starves := starves_status.bind
  have honFst : (Proc.onFst (flush rxFifoDepth) : Proc (Engine β κ × Nat) _).Starves :=
    hflush.zoom fun _ => rfl
  exact honFst.bind

end Engine

end TwoWire
