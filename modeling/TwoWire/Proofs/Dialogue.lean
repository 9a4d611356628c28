import TwoWire.Log.Note
import TwoWire.Poll
import TwoWire.Sim.Script

/-!
# Dialogues with a bus master

What a procedure says to a bus master, and what it makes of the replies. The master is one that may
reply anything to each call, depending on all calls before it (`Sim.ScriptedMaster`), so what is
proved about a dialogue holds over any bus.

`Proc.Talks` is about runs as a whole: its postcondition sees the calls with the replies to them,
and how the run ended, be it with an answer or not. There is one rule for each way of building a
procedure. `talks_pollUntil` is the rule for polling, where every poll is one call.
-/

namespace TwoWire

namespace Event

/-- The calls among some events. -/
def calls (events : List Event) : List Call :=
  events.filterMap fun
    | .call made => some made
    | _ => none

@[simp] theorem calls_nil : calls [] = [] := rfl

@[simp] theorem calls_append (a b : List Event) : calls (a ++ b) = calls a ++ calls b :=
  List.filterMap_append ..

@[simp] theorem calls_sleeps (part : Part) (parts : List Nat) :
    calls (parts.map (.sleep part)) = [] := by
  simp [calls]

end Event

open Event

namespace Sim.ScriptedMaster

variable {σ ε : Type}

/-- Calls made one after another, each with the reply to it. -/
def exchanges (respond : σ → Call → Reply ε × σ) : σ → List Call → List (Call × Reply ε)
  | _, [] => []
  | script, made :: rest =>
    (made, (respond script made).1) :: exchanges respond (respond script made).2 rest

/-- Where the script stands after some calls. -/
def scriptAfter (respond : σ → Call → Reply ε × σ) (script : σ) (calls : List Call) : σ :=
  calls.foldl (fun script made => (respond script made).2) script

theorem exchanges_append (respond : σ → Call → Reply ε × σ) (script : σ) (a b : List Call) :
    exchanges respond script (a ++ b)
      = exchanges respond script a ++ exchanges respond (scriptAfter respond script a) b := by
  induction a generalizing script with
  | nil => rfl
  | cons made rest ih => exact congrArg (List.cons _) (ih _)

theorem map_fst_exchanges (respond : σ → Call → Reply ε × σ) (script : σ) (calls : List Call) :
    (exchanges respond script calls).map Prod.fst = calls := by
  induction calls generalizing script with
  | nil => rfl
  | cons made rest ih => exact congrArg (List.cons made) (ih _)

theorem length_exchanges (respond : σ → Call → Reply ε × σ) (script : σ) (calls : List Call) :
    (exchanges respond script calls).length = calls.length := by
  rw [← List.length_map Prod.fst, map_fst_exchanges]

end Sim.ScriptedMaster

namespace Proc

open Sim (ScriptedMaster)
open Sim.ScriptedMaster (exchanges scriptAfter exchanges_append length_exchanges)

variable {σ ε τ α β δ : Type} {view : τ → ScriptedMaster σ ε}

/--
A run from the state `s` with allowance `n` has talked to the bus master in the state, and the
postcondition holds of the calls with their replies and of the outcome. A call costs one from the
allowance, and only a run that has nothing left of it is exhausted.
-/
structure Tells (view : τ → ScriptedMaster σ ε) (s : τ) (n : Nat) (run : Exec τ α)
    (post : List (Call × Reply ε) → Except Halt α → Prop) : Prop where
  respond : (view run.state).respond = (view s).respond
  script : (view run.state).script
    = scriptAfter (view s).respond (view s).script (calls run.events)
  left : (calls run.events).length + run.left = n
  exhausted : run.outcome = .error .exhausted → run.left = 0
  post : post (exchanges (view s).respond (view s).script (calls run.events)) run.outcome

/-- However the procedure ends, the postcondition holds of what has been said and of the end. -/
def Talks (view : τ → ScriptedMaster σ ε) (p : Proc τ α)
    (post : List (Call × Reply ε) → Except Halt α → Prop) : Prop :=
  ∀ s n, Tells view s n (p s n) post

section Talks

variable {p : Proc τ α} {post post' : List (Call × Reply ε) → Except Halt α → Prop}

theorem Talks.mono (h : Talks view p post) (himp : ∀ xs out, post xs out → post' xs out) :
    Talks view p post' :=
  fun s n => { h s n with post := himp _ _ (h s n).post }

/-- A run that says nothing and keeps the allowance. -/
theorem tells_silent {s s' : τ} {n : Nat} {events : List Event} {out : Except Halt α}
    (hview : view s' = view s) (hcalls : calls events = []) (hout : out ≠ .error .exhausted)
    (h : post [] out) : Tells view s n ⟨events, out, s', n⟩ post where
  respond := by rw [hview]
  script := by rw [hview, hcalls]; rfl
  left := by rw [hcalls, List.length_nil, Nat.zero_add]
  exhausted := fun hexhausted => absurd hexhausted hout
  post := by rw [hcalls]; exact h

theorem talks_pure {a : α} (h : post [] (.ok a)) : Talks view (pure a) post :=
  fun _ _ => tells_silent rfl rfl nofun h

/-- What the first part has said is followed by what the second part says. -/
theorem Tells.append {s s' : τ} {n mid : Nat} {events : List Event} {second : Exec τ α}
    (hrespond : (view s').respond = (view s).respond)
    (hscript : (view s').script = scriptAfter (view s).respond (view s).script (calls events))
    (hleft : (calls events).length + mid = n)
    (h : Tells view s' mid second fun ys =>
      post (exchanges (view s).respond (view s).script (calls events) ++ ys)) :
    Tells view s n ⟨events ++ second.events, second.outcome, second.state, second.left⟩ post where
  respond := h.respond.trans hrespond
  script := by
    have hsecond := h.script
    rw [hrespond, hscript] at hsecond
    rw [hsecond, calls_append, scriptAfter, scriptAfter, scriptAfter, List.foldl_append]
  left := by
    have hsecond := h.left
    show (calls (events ++ second.events)).length + second.left = n
    rw [calls_append, List.length_append]
    omega
  exhausted := h.exhausted
  post := by
    have hsecond := h.post
    rw [hrespond, hscript] at hsecond
    rw [calls_append, exchanges_append]
    exact hsecond

/-- The first part ends the run, or the second part goes on from where it left off. -/
theorem Tells.bind {f : α → Proc τ β} {s : τ} {n : Nat}
    {post' : List (Call × Reply ε) → Except Halt β → Prop} (hp : Tells view s n (p s n) post)
    (herror : ∀ xs halt, post xs (.error halt) → post' xs (.error halt))
    (hok : ∀ xs a s' left, post xs (.ok a) → xs.length + left = n →
      Tells view s' left (f a s' left) fun ys => post' (xs ++ ys)) :
    Tells view s n ((p >>= f) s n) post' := by
  cases hout : (p s n).outcome with
  | error halt =>
    rw [bind_of_halt hout]
    have hpost := hp.post
    have hexhausted := hp.exhausted
    rw [hout] at hpost hexhausted
    exact ⟨hp.respond, hp.script, hp.left,
      fun hhalt => hexhausted (congrArg _ (Except.error.inj hhalt)), herror _ _ hpost⟩
  | ok a =>
    rw [bind_of_ok hout]
    have hpost := hp.post
    rw [hout] at hpost
    refine Tells.append hp.respond hp.script hp.left (hok _ a _ _ hpost ?_)
    rw [length_exchanges]
    exact hp.left

/-- What has to hold of the first part so that the second part can go on. -/
def Onward (view : τ → ScriptedMaster σ ε) (f : α → Proc τ β)
    (post : List (Call × Reply ε) → Except Halt β → Prop) (xs : List (Call × Reply ε)) :
    Except Halt α → Prop
  | .ok a => Talks view (f a) fun ys => post (xs ++ ys)
  | .error halt => post xs (.error halt)

theorem Talks.bind {f : α → Proc τ β} {post : List (Call × Reply ε) → Except Halt β → Prop}
    (h : Talks view p (Onward view f post)) : Talks view (p >>= f) post :=
  fun s n => (h s n).bind (fun _ _ herror => herror) fun _ _ s' left hok _ => hok s' left

theorem Talks.map {f : α → β} {post : List (Call × Reply ε) → Except Halt β → Prop}
    (h : Talks view p fun xs out => post xs (out.map f)) : Talks view (f <$> p) post := by
  intro s n
  have hp := h s n
  refine ⟨hp.respond, hp.script, hp.left, fun hhalt => hp.exhausted ?_, hp.post⟩
  rw [map_apply] at hhalt
  cases hout : (p s n).outcome with
  | error halt => simpa [hout, Except.map] using hhalt
  | ok a => simp [hout, Except.map] at hhalt

end Talks

/-! ## A master with a logger beside it -/

theorem Talks.onFst {κ : Type} {p : Proc (ScriptedMaster σ ε) α}
    {post : List (Call × Reply ε) → Except Halt α → Prop} (h : Talks id p post) :
    Talks (Prod.fst : ScriptedMaster σ ε × κ → _) p.onFst post := by
  rintro ⟨master, logger⟩ n
  have hp := h master n
  exact ⟨hp.respond, hp.script, hp.left, hp.exhausted, hp.post⟩

/-- A record is written, or the logger takes it badly; the bus is not touched. -/
theorem talks_note {κ : Type} [Log.Logger κ] (part : Part) (level : Log.Level)
    (pieces : List String) {post : List (Call × Reply ε) → Except Halt Unit → Prop}
    (hok : post [] (.ok ())) (hfault : ∀ cause, post [] (.error (.fault cause))) :
    Talks (Prod.fst : ScriptedMaster σ ε × κ → _) (Log.note part level pieces).onSnd post := by
  rintro ⟨master, logger⟩ n
  simp only [onSnd, zoom, Log.note]
  split
  · exact tells_silent rfl rfl nofun (hfault _)
  · exact tells_silent rfl rfl nofun hok

/-- A request is one call, and the reply is what the master gives; or nothing is left for it. -/
theorem talks_serve (request : Request)
    {post : List (Call × Reply ε) → Except Halt (Reply ε) → Prop}
    (hreply : ∀ reply, post [(.serve request, reply)] (.ok reply))
    (hexhausted : post [] (.error .exhausted)) :
    Talks id (Master.serve request : Proc (ScriptedMaster σ ε) (Reply ε)) post := by
  intro master n
  cases n with
  | zero => exact ⟨rfl, rfl, rfl, fun _ => rfl, hexhausted⟩
  | succ n => exact ⟨rfl, rfl, Nat.add_comm 1 n, nofun, hreply _⟩

end Proc

/-! ## Polling -/

section Poll

open Proc (Talks Tells)
open Sim (ScriptedMaster)

variable {σ ε : Type} {answer : Call × Reply ε → Except ε Bool → Prop} {bound : Option Nat}
  {ready next : Proc (ScriptedMaster σ ε) (Except ε Bool)}

/-- One poll is one call, whose reply gives the answer; or nothing is left for it. -/
def PolledOnce (answer : Call × Reply ε → Except ε Bool → Prop) (xs : List (Call × Reply ε)) :
    Except Halt (Except ε Bool) → Prop
  | .error halt => halt = .exhausted ∧ xs = []
  | .ok settled => ∃ x, xs = [x] ∧ answer x settled

/-- Polls of which all but the last say no, and the last one settles it, within the bound. -/
def Settled (answer : Call × Reply ε → Except ε Bool → Prop) (bound : Option Nat)
    (xs : List (Call × Reply ε)) (settled : Except ε Bool) : Prop :=
  (∃ front last, xs = front ++ [last] ∧ (∀ x ∈ front, answer x (.ok false)) ∧ answer last settled)
    ∧ ∀ most, bound = some most → xs.length ≤ most

/--
What polls say if at most `bound` are made: all of them say no, except that the last one may settle
it. If none does, polling ends with a no exactly when there is a bound and it has been reached.
-/
def Polled (answer : Call × Reply ε → Except ε Bool → Prop) (bound : Option Nat)
    (xs : List (Call × Reply ε)) : Except Halt (Except ε Bool) → Prop
  | .error halt => halt = .exhausted ∧ (∀ x ∈ xs, answer x (.ok false))
    ∧ ∀ most, bound = some most → xs.length < most
  | .ok (.ok false) => bound = some xs.length ∧ ∀ x ∈ xs, answer x (.ok false)
  | .ok settled => Settled answer bound xs settled

theorem Settled.cons {x : Call × Reply ε} {xs : List (Call × Reply ε)} {settled : Except ε Bool}
    (hx : answer x (.ok false)) (h : Settled answer bound xs settled) :
    Settled answer (bound.map (· + 1)) (x :: xs) settled := by
  obtain ⟨⟨front, last, rfl, hfront, hlast⟩, hlen⟩ := h
  refine ⟨⟨x :: front, last, rfl, List.forall_mem_cons.mpr ⟨hx, hfront⟩, hlast⟩,
    fun most hmost => ?_⟩
  obtain ⟨before, hbefore, rfl⟩ := Option.map_eq_some_iff.mp hmost
  exact Nat.succ_le_succ (hlen before hbefore)

/-- One more poll that says no. -/
theorem Polled.cons {x : Call × Reply ε} {xs : List (Call × Reply ε)}
    {out : Except Halt (Except ε Bool)} (hx : answer x (.ok false))
    (h : Polled answer bound xs out) : Polled answer (bound.map (· + 1)) (x :: xs) out := by
  match out, h with
  | .error halt, ⟨hhalt, hxs, hlen⟩ =>
    refine ⟨hhalt, List.forall_mem_cons.mpr ⟨hx, hxs⟩, fun most hmost => ?_⟩
    obtain ⟨before, hbefore, rfl⟩ := Option.map_eq_some_iff.mp hmost
    exact Nat.succ_lt_succ (hlen before hbefore)
  | .ok (.ok false), ⟨hlen, hxs⟩ =>
    exact ⟨by rw [hlen]; rfl, List.forall_mem_cons.mpr ⟨hx, hxs⟩⟩
  | .ok (.ok true), h => exact Settled.cons hx h
  | .ok (.error e), h => exact Settled.cons hx h

/-- A single poll that settles it. -/
theorem settled_singleton {x : Call × Reply ε} {settled : Except ε Bool} (hx : answer x settled) :
    Settled answer (bound.map (· + 1)) [x] settled := by
  refine ⟨⟨[], x, rfl, nofun, hx⟩, fun most hmost => ?_⟩
  obtain ⟨before, -, rfl⟩ := Option.map_eq_some_iff.mp hmost
  exact Nat.succ_le_succ (Nat.zero_le before)

theorem tells_pollOr (bound : Option Nat) (hready : Talks id ready (PolledOnce answer))
    {master : ScriptedMaster σ ε} {n : Nat} (hnext : ∀ master' left, left + 1 = n →
      Tells id master' left (next master' left) (Polled answer bound)) :
    Tells id master n (pollOr ready next master n) (Polled answer (bound.map (· + 1))) := by
  refine (hready master n).bind (fun xs halt h => ?_) fun xs settled master' left h hleft => ?_
  · obtain ⟨rfl, rfl⟩ := h
    refine ⟨rfl, nofun, fun most hmost => ?_⟩
    obtain ⟨before, -, rfl⟩ := Option.map_eq_some_iff.mp hmost
    exact Nat.succ_pos before
  · obtain ⟨x, rfl, hx⟩ := h
    match settled, hx with
    | .ok false, hx =>
      have hrest := hnext master' left (by rw [Nat.add_comm]; exact hleft)
      exact { hrest with post := Polled.cons hx hrest.post }
    | .ok true, hx => exact Proc.talks_pure (settled_singleton hx) master' left
    | .error e, hx => exact Proc.talks_pure (settled_singleton hx) master' left

/-- Each poll costs one from the allowance, so it is used up when the polls are. -/
theorem tells_pollOn (hready : Talks id ready (PolledOnce answer)) (n : Nat)
    (master : ScriptedMaster σ ε) :
    Tells id master n (pollOn ready n master n) (Polled answer none) := by
  induction n generalizing master with
  | zero => exact ⟨rfl, rfl, rfl, fun _ => rfl, rfl, nofun, nofun⟩
  | succ n ih =>
    refine tells_pollOr none hready fun master' left hleft => ?_
    obtain rfl : left = n := Nat.succ.inj hleft
    exact ih master'

theorem talks_pollTimes (hready : Talks id ready (PolledOnce answer)) (part : Part) (pause : Nat)
    (count : Nat) : Talks id (pollTimes part pause ready count) (Polled answer (some count)) := by
  induction count with
  | zero => exact Proc.talks_pure ⟨rfl, nofun⟩
  | succ count ih =>
    refine Talks.bind fun master n => Proc.tells_silent rfl (calls_sleeps ..) nofun ?_
    exact fun master' left => tells_pollOr (some count) hready fun m l _ => ih m l

/--
**The rule for polling a bus master.** If every poll is one call, then so many calls are made that
the last one settles it, or as many as the policy allows.
-/
theorem talks_pollUntil (hready : Talks id ready (PolledOnce answer)) (part : Part)
    (policy : WaitPolicy) :
    Talks id (pollUntil part policy ready) (Polled answer (policy.maxPolls.map (· + 1))) := by
  intro master n
  refine tells_pollOr policy.maxPolls hready fun master' left _ => ?_
  cases policy.maxPolls with
  | none => exact tells_pollOn hready left master'
  | some count => exact talks_pollTimes hready part policy.pause count master' left

end Poll

end TwoWire
