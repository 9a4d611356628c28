import TwoWire.Codec.BringUp
import TwoWire.Proofs.Dialogue

/-!
# Requests of the codec

What requests made one after another say to the bus when the first failure ends them (`Ran`). The
last call is the one that has failed, if any has; every call before it has succeeded.

The rules at the end are for steps of the bring-up sequence: one that is a request, and one that
writes a record.
-/

namespace TwoWire.Codec

open Event
open Proc (Talks)
open Sim (ScriptedMaster)

variable {σ ε κ α β : Type}

/-! ## Requests one after another -/

/-- Every call has succeeded. -/
def AllOk (xs : List (Call × Reply ε)) : Prop := ∀ x ∈ xs, x.2.result = .ok ()

/-- What requests made in order say: the first that fails is the last one made. -/
def Ran (requests : List Request) (xs : List (Call × Reply ε)) :
    Except Halt (Except (BringUpError ε) Unit) → Prop
  | .error halt => xs.map Prod.fst <+: requests.map .serve ∧ AllOk xs
    ∧ (halt = .exhausted → xs.length < requests.length)
  | .ok (.error error) => xs.map Prod.fst <+: requests.map .serve
    ∧ ∃ front last e, xs = front ++ [last] ∧ AllOk front ∧ last.2.result = .error e ∧ error = .bus e
  | .ok (.ok ()) => xs.map Prod.fst = requests.map .serve ∧ AllOk xs

section Ran

variable {request : Request} {requests : List Request} {reply : Reply ε}
  {xs : List (Call × Reply ε)} {out : Except Halt (Except (BringUpError ε) Unit)}

theorem ran_exhausted : Ran (ε := ε) (request :: requests) [] (.error .exhausted) :=
  ⟨List.nil_prefix, nofun, fun _ => Nat.succ_pos _⟩

theorem ran_failed {e : ε} (h : reply.result = .error e) :
    Ran (request :: requests) [(.serve request, reply)] (.ok (.error (.bus e))) :=
  ⟨⟨requests.map .serve, rfl⟩, [], (.serve request, reply), e, rfl, nofun, h, rfl⟩

theorem AllOk.cons {x : Call × Reply ε} (hx : x.2.result = .ok ()) (h : AllOk xs) :
    AllOk (x :: xs) := List.forall_mem_cons.mpr ⟨hx, h⟩

theorem Ran.cons (hok : reply.result = .ok ()) (h : Ran requests xs out) :
    Ran (request :: requests) ((.serve request, reply) :: xs) out := by
  match out, h with
  | .error halt, ⟨hcalls, hxs, hmore⟩ =>
    exact ⟨(List.prefix_cons_inj _).mpr hcalls, hxs.cons hok,
      fun hhalt => Nat.succ_lt_succ (hmore hhalt)⟩
  | .ok (.error error), ⟨hcalls, front, last, e, hsplit, hfront, hlast⟩ =>
    exact ⟨(List.prefix_cons_inj _).mpr hcalls, (.serve request, reply) :: front, last, e,
      congrArg _ hsplit, hfront.cons hok, hlast⟩
  | .ok (.ok ()), ⟨hcalls, hxs⟩ => exact ⟨congrArg _ hcalls, hxs.cons hok⟩

theorem Ran.in_order (h : Ran requests xs out) : xs.map Prod.fst <+: requests.map .serve := by
  match out, h with
  | .error halt, h => exact h.1
  | .ok (.error error), h => exact h.1
  | .ok (.ok ()), h => exact h.1 ▸ List.prefix_refl _

theorem AllOk.append {more : List (Call × Reply ε)} (h : AllOk xs) (hmore : AllOk more) :
    AllOk (xs ++ more) := by
  intro x hx
  rcases List.mem_append.mp hx with hx | hx
  · exact h x hx
  · exact hmore x hx

theorem AllOk.dropLast (h : AllOk xs) : AllOk xs.dropLast :=
  fun x hx => h x (List.dropLast_subset _ hx)

/-- If all but the last call of the second part succeed, so do all but the last of both parts. -/
theorem AllOk.dropLast_append {more : List (Call × Reply ε)} (h : AllOk xs)
    (hmore : AllOk more.dropLast) : AllOk (xs ++ more).dropLast := by
  by_cases hnil : more = []
  · rw [hnil, List.append_nil]
    exact h.dropLast
  · rw [List.dropLast_append_of_ne_nil hnil]
    exact h.append hmore

theorem Ran.allOk_dropLast {requests : List Request} (h : Ran requests xs out) :
    AllOk xs.dropLast := by
  match out, h with
  | .error halt, h => exact h.2.1.dropLast
  | .ok (.error error), ⟨_, front, last, _, hsplit, hfront, _⟩ =>
    rw [hsplit, List.dropLast_concat]
    exact hfront
  | .ok (.ok ()), h => exact h.2.dropLast

/-- The last call has failed. -/
def FailedLast (xs : List (Call × Reply ε)) (e : ε) : Prop :=
  ∃ x, xs.getLast? = some x ∧ x.2.result = .error e

theorem failedLast_concat {x : Call × Reply ε} {e : ε} :
    FailedLast (xs ++ [x]) e ↔ x.2.result = .error e := by
  simp [FailedLast]

theorem AllOk.not_failedLast (h : AllOk xs) (e : ε) : ¬FailedLast xs e := by
  rintro ⟨x, hlast, hfailed⟩
  have hok := h x (List.mem_of_getLast? hlast)
  rw [hfailed] at hok
  cases hok

theorem AllOk.failedLast_append {more : List (Call × Reply ε)} (h : AllOk xs) {e : ε} :
    FailedLast (xs ++ more) e ↔ FailedLast more e := by
  rcases List.eq_nil_or_concat more with rfl | ⟨front, last, rfl⟩
  · rw [List.append_nil]
    exact iff_of_false (h.not_failedLast e) nofun
  · rw [List.concat_eq_append, ← List.append_assoc, failedLast_concat, failedLast_concat]

theorem Ran.bus_iff {requests : List Request} (h : Ran requests xs out) {e : ε} :
    out = .ok (.error (.bus e)) ↔ FailedLast xs e := by
  match out, h with
  | .error halt, h => exact iff_of_false nofun (h.2.1.not_failedLast e)
  | .ok (.error error), ⟨_, front, last, e', hsplit, _, hfailed, herror⟩ =>
    rw [hsplit, failedLast_concat, hfailed, herror]
    simp
  | .ok (.ok ()), h => exact iff_of_false nofun (h.2.not_failedLast e)

/-- Requests that have all been made and have succeeded have been answered, or the logger failed. -/
theorem Ran.eq_ok {requests : List Request} (h : Ran requests xs out)
    (hsound : ∀ cause, out ≠ .error (.fault cause))
    (hall : xs.map Prod.fst = requests.map .serve) (hok : AllOk xs) : out = .ok (.ok ()) := by
  match out, h with
  | .error (.fault cause), _ => exact absurd rfl (hsound cause)
  | .error .exhausted, h =>
    have hlen := congrArg List.length hall
    have hmore := h.2.2 rfl
    simp only [List.length_map] at hlen
    omega
  | .ok (.error error), ⟨_, front, last, e, hsplit, _, hfailed, _⟩ =>
    exact absurd (hsplit ▸ failedLast_concat.mpr hfailed) (hok.not_failedLast e)
  | .ok (.ok ()), _ => rfl

end Ran

/-! ## Steps of the sequence -/

theorem run_onBus {μ : Type} {p : Proc μ (Except ε α)} :
    (Config.onBus p : ExceptT (BringUpError ε) (Proc (μ × κ)) α).run
      = Except.mapError .bus <$> p.onFst := bind_pure_comp ..

/-- A step that is one request, and what follows it. -/
theorem talks_request_bind {request : Request} {p : Proc (ScriptedMaster σ ε) (Except ε α)}
    {value : Reply ε → α}
    (hp : p = (fun reply => reply.result.map fun _ => value reply) <$> Master.serve request)
    {next : α → ExceptT (BringUpError ε) (Proc (ScriptedMaster σ ε × κ)) β}
    {post : List (Call × Reply ε) → Except Halt (Except (BringUpError ε) β) → Prop}
    (hexhausted : post [] (.error .exhausted))
    (hfailed : ∀ reply e, reply.result = .error e →
      post [(.serve request, reply)] (.ok (.error (.bus e))))
    (hok : ∀ reply, reply.result = .ok () →
      Talks Prod.fst (next (value reply)).run fun ys => post ((.serve request, reply) :: ys)) :
    Talks Prod.fst (Config.onBus p >>= next).run post := by
  rw [ExceptT.run_bind, run_onBus, hp]
  refine Talks.bind (Talks.map (Talks.onFst (Talks.map (Proc.talks_serve request ?_ ?_))))
  · intro reply
    cases hresult : reply.result with
    | error e =>
      simp only [Except.map, hresult]
      exact Proc.talks_pure (hfailed reply e hresult)
    | ok =>
      simp only [Except.map, hresult]
      exact hok reply hresult
  · exact hexhausted

variable [Log.Logger κ]

/-- A record says nothing to the bus. -/
theorem talks_log (level : Log.Level) (pieces : List String)
    {post : List (Call × Reply ε) → Except Halt (Except (BringUpError ε) Unit) → Prop}
    (hfault : ∀ cause, post [] (.error (.fault cause))) (hok : post [] (.ok (.ok ()))) :
    Talks Prod.fst (Config.log level pieces :
      ExceptT (BringUpError ε) (Proc (ScriptedMaster σ ε × κ)) Unit).run post :=
  Talks.map (Proc.talks_note _ _ _ hok hfault)

/-- A record, and what follows it. -/
theorem talks_log_bind (level : Log.Level) (pieces : List String)
    {next : Unit → ExceptT (BringUpError ε) (Proc (ScriptedMaster σ ε × κ)) β}
    {post : List (Call × Reply ε) → Except Halt (Except (BringUpError ε) β) → Prop}
    (hfault : ∀ cause, post [] (.error (.fault cause)))
    (hnext : Talks Prod.fst (next ()).run post) :
    Talks Prod.fst (Config.log level pieces >>= next).run post := by
  rw [ExceptT.run_bind]
  exact Talks.bind (talks_log _ _ hfault hnext)

end TwoWire.Codec
