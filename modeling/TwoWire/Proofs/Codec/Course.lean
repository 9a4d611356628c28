import TwoWire.Proofs.Codec.Requests

/-!
# The course of bringing up the codec

What bringing up the codec says to the bus, over any bus: each reply may be anything, and may depend
on all calls before it. The sequence has three parts, the PLL block, the wait for lock and the rest,
and `Course` says for each of them what has been said if bringing up ends in it
(`Config.talks_bringUp`).
-/

namespace TwoWire.Codec

open Event
open Proc (Talks)
open Sim (ScriptedMaster)

variable {σ ε κ : Type}

namespace Config

/-! ## The calls -/

/-- The request that reads the PLL block. -/
def readBlock (c : Config) : Request :=
  c.peekRequest Register.pll.offset (List.replicate Pll.blockLength 0)

/-- The request that writes the configured PLL block. -/
def writeBlock (c : Config) : Request :=
  .writeRegisters c.address (subAddress Register.pll.offset) c.pll.toBlock

/-- The request that writes one control register. -/
def pokeRequest (c : Config) (entry : InitEntry) : Request :=
  .writeRegisters c.address (subAddress entry.offset) [entry.value]

/-- The request that enables the core clock. -/
def clockWrite (c : Config) : Request :=
  c.pokeRequest ⟨Register.clockControl.offset, c.clockControl⟩

/-- The PLL block is read and written. -/
def start (c : Config) : List Request := [c.readBlock, c.writeBlock]

/-- The core clock is enabled, and the writes of the table are made. -/
def finish (c : Config) : List Request := c.clockWrite :: c.table.map c.pokeRequest

/-- The whole sequence, with some polls for lock. -/
def sequence (c : Config) (polls : Nat) : List Request :=
  c.start ++ List.replicate polls c.readBlock ++ c.finish

/-- The reply to a read of the PLL block shows that the PLL has locked. -/
def showsLock (c : Config) (reply : Reply ε) : Bool :=
  (Pll.ofBlock (c.readBlock.fill reply.received).flatten).isLocked

/-! ## The steps as requests -/

theorem readPll_eq {μ : Type} [Master μ ε] (c : Config) :
    (c.readPll : Proc μ _) = (fun reply => reply.result.map fun _ =>
      Pll.ofBlock (c.readBlock.fill reply.received).flatten) <$> Master.serve c.readBlock := by
  unfold readPll Master.readMany
  simp only [bind_pure_comp, Functor.map_map]
  congr 1
  funext reply
  cases reply.result <;> rfl

theorem pokeMany_eq {μ : Type} [Master μ ε] (c : Config) (offset : UInt8) (bytes : List UInt8) :
    (c.pokeMany offset bytes : Proc μ _)
      = (fun reply => reply.result.map fun _ => ())
        <$> Master.serve (.writeRegisters c.address (subAddress offset) bytes) := by
  unfold pokeMany Master.writeRegisters
  simp only [bind_pure_comp]
  congr 1
  funext reply
  cases reply.result <;> rfl

/-- The writes of a table are made in order. -/
theorem talks_replay (c : Config) (table : List InitEntry) :
    Talks Prod.fst
      (c.replay table : ExceptT (BringUpError ε) (Proc (ScriptedMaster σ ε × κ)) Unit).run
      (Ran (table.map c.pokeRequest)) := by
  induction table with
  | nil => exact Proc.talks_pure ⟨rfl, nofun⟩
  | cons entry rest ih =>
    exact talks_request_bind (c.pokeMany_eq entry.offset [entry.value]) ran_exhausted
      (fun reply e hfailed => ran_failed hfailed)
      fun reply hok => ih.mono fun ys out => Ran.cons hok

/-! ## Waiting for lock -/

/-- What a poll for lock answers: whether the reply shows lock, if the read succeeds. -/
def LockAnswer (c : Config) (x : Call × Reply ε) (settled : Except ε Bool) : Prop :=
  x.1 = .serve c.readBlock ∧ x.2.result.map (fun _ => c.showsLock x.2) = settled

/-- A poll that has succeeded and does not show lock. -/
def Unlocked (c : Config) (x : Call × Reply ε) : Prop :=
  x.1 = .serve c.readBlock ∧ x.2.result = .ok () ∧ c.showsLock x.2 = false

/-- Polls of which none but the last may show lock or fail. -/
def LockPolls (c : Config) (polls : List (Call × Reply ε)) (last : Reply ε → Prop) : Prop :=
  ∃ front reply, polls = front ++ [(.serve c.readBlock, reply)] ∧ (∀ x ∈ front, c.Unlocked x)
    ∧ last reply

/-- What waiting for lock says, by its end. No more polls are made than the policy allows. -/
def AwaitedLock (c : Config) (polls : List (Call × Reply ε))
    (out : Except Halt (Except (BringUpError ε) Unit)) : Prop :=
  (∀ most, c.lockWait.maxPolls = some most → polls.length ≤ most + 1) ∧
  match out with
  | .error halt => (∀ x ∈ polls, c.Unlocked x)
    ∧ (halt = .exhausted → c.lockWait.maxPolls.map (· + 1) ≠ some polls.length)
  | .ok (.error (.bus e)) => c.LockPolls polls fun reply => reply.result = .error e
  | .ok (.error .lockTimeout) => c.lockWait.maxPolls.map (· + 1) = some polls.length
    ∧ ∀ x ∈ polls, c.Unlocked x
  | .ok (.ok ()) => c.LockPolls polls fun reply => reply.result = .ok () ∧ c.showsLock reply = true

theorem LockAnswer.of_ok {c : Config} {x : Call × Reply ε} {locked : Bool}
    (h : c.LockAnswer x (.ok locked)) :
    x.1 = .serve c.readBlock ∧ x.2.result = .ok () ∧ c.showsLock x.2 = locked := by
  obtain ⟨hcall, hanswer⟩ := h
  cases hresult : x.2.result with
  | error e => simp [hresult, Except.map] at hanswer
  | ok => exact ⟨hcall, rfl, by simpa [hresult, Except.map] using hanswer⟩

theorem LockAnswer.of_error {c : Config} {x : Call × Reply ε} {e : ε}
    (h : c.LockAnswer x (.error e)) : x.1 = .serve c.readBlock ∧ x.2.result = .error e := by
  obtain ⟨hcall, hanswer⟩ := h
  cases hresult : x.2.result with
  | error e' => exact ⟨hcall, by simpa [hresult, Except.map] using hanswer⟩
  | ok => simp [hresult, Except.map] at hanswer

/-- What polls for lock say, as far as the rule for polling tells it. -/
theorem lockPolls_of_settled {c : Config} {bound : Option Nat} {polls : List (Call × Reply ε)}
    {settled : Except ε Bool} {last : Reply ε → Prop} (h : Settled c.LockAnswer bound polls settled)
    (hlast : ∀ x, c.LockAnswer x settled → x.1 = .serve c.readBlock ∧ last x.2) :
    c.LockPolls polls last := by
  obtain ⟨⟨front, ⟨call, reply⟩, rfl, hfront, hanswer⟩, -⟩ := h
  obtain ⟨rfl, hreply⟩ := hlast _ hanswer
  exact ⟨front, reply, rfl, fun x hx => (hfront x hx).of_ok, hreply⟩

variable [Log.Logger κ]

theorem talks_awaitLock (c : Config) :
    Talks Prod.fst (c.awaitLock : ExceptT (BringUpError ε) (Proc (ScriptedMaster σ ε × κ)) Unit).run
      (AwaitedLock c) := by
  have hready : Talks id (do return (← c.readPll).map (·.isLocked) :
      Proc (ScriptedMaster σ ε) (Except ε Bool)) (PolledOnce c.LockAnswer) := by
    rw [bind_pure_comp, c.readPll_eq, Functor.map_map]
    refine Talks.map (Proc.talks_serve _ (fun reply => ?_) ⟨rfl, rfl⟩)
    obtain ⟨result, received⟩ := reply
    exact ⟨_, rfl, rfl, by cases result <;> rfl⟩
  have hmost : ∀ {polls : List (Call × Reply ε)},
      (∀ most, c.lockWait.maxPolls.map (· + 1) = some most → polls.length ≤ most) →
        ∀ most, c.lockWait.maxPolls = some most → polls.length ≤ most + 1 :=
    fun hlen most hpolls => hlen (most + 1) (congrArg (Option.map _) hpolls)
  unfold awaitLock
  refine talks_log_bind _ _ (fun cause => ⟨fun _ _ => Nat.zero_le _, nofun, nofun⟩) ?_
  rw [ExceptT.run_bind, run_onBus]
  refine Talks.bind (Talks.map (Talks.onFst ((talks_pollUntil hready .codec c.lockWait).mono
    fun polls out h => ?_)))
  match out, h with
  | .error halt, ⟨_, hpolls, hlen⟩ =>
    refine ⟨hmost fun most h => Nat.le_of_lt (hlen most h), fun x hx => (hpolls x hx).of_ok, ?_⟩
    exact fun _ hall => absurd (hlen _ hall) (Nat.lt_irrefl _)
  | .ok (.ok true), h =>
    refine Proc.talks_pure ?_
    rw [List.append_nil]
    exact ⟨hmost h.2, lockPolls_of_settled h fun x hx => hx.of_ok⟩
  | .ok (.error e), h =>
    refine Proc.talks_pure ?_
    rw [List.append_nil]
    exact ⟨hmost h.2, lockPolls_of_settled h fun x hx => hx.of_error⟩
  | .ok (.ok false), ⟨hlen, hpolls⟩ =>
    have hreached : ∀ most, c.lockWait.maxPolls = some most → polls.length ≤ most + 1 :=
      hmost fun most h => Nat.le_of_eq (Option.some.inj (hlen.symm.trans h))
    refine talks_log_bind _ _ (fun cause => ?_) (Proc.talks_pure ?_)
    · rw [List.append_nil]
      exact ⟨hreached, fun x hx => (hpolls x hx).of_ok, nofun⟩
    · rw [List.append_nil]
      exact ⟨hreached, hlen, fun x hx => (hpolls x hx).of_ok⟩

/-! ## The whole sequence -/

/-- The wait for lock is over, if there is one. -/
def Ready (c : Config) (polls : List (Call × Reply ε)) : Prop :=
  if c.pll.isEnabled then AwaitedLock c polls (.ok (.ok ())) else polls = []

/-- What bringing up the codec says, by the part in which it ends. -/
inductive Course (c : Config) : List (Call × Reply ε) →
    Except Halt (Except (BringUpError ε) Unit) → Prop
  /-- Before the PLL block has been written. -/
  | starting {xs : List (Call × Reply ε)} {out : Except Halt (Except (BringUpError ε) Unit)}
    (h : Ran c.start xs out) (hstop : out ≠ .ok (.ok ())) : Course c xs out
  /-- While waiting for lock. -/
  | locking {begun polls : List (Call × Reply ε)}
    {out : Except Halt (Except (BringUpError ε) Unit)} (hbegun : Ran c.start begun (.ok (.ok ())))
    (henabled : c.pll.isEnabled = true) (h : AwaitedLock c polls out) (hstop : out ≠ .ok (.ok ())) :
    Course c (begun ++ polls) out
  /-- After the wait for lock, if there is one. -/
  | finishing {begun polls ended : List (Call × Reply ε)}
    {out : Except Halt (Except (BringUpError ε) Unit)} (hbegun : Ran c.start begun (.ok (.ok ())))
    (hready : c.Ready polls) (h : Ran c.finish ended out) : Course c (begun ++ polls ++ ended) out

/-- The clock is enabled and the table written, and a record follows. -/
theorem talks_finish (c : Config) (level : Log.Level) (pieces : List String) :
    Talks Prod.fst (do
      onBus (c.poke Register.clockControl.offset c.clockControl)
      c.replay c.table
      log level pieces :
        ExceptT (BringUpError ε) (Proc (ScriptedMaster σ ε × κ)) Unit).run (Ran c.finish) := by
  refine talks_request_bind (c.pokeMany_eq _ _) ran_exhausted
    (fun reply e hfailed => ran_failed hfailed) fun reply hok => ?_
  rw [ExceptT.run_bind]
  refine Talks.bind ((c.talks_replay c.table).mono fun xs out h => ?_)
  match out, h with
  | .error halt, h => exact Ran.cons hok h
  | .ok (.error error), h =>
    refine Proc.talks_pure ?_
    rw [List.append_nil]
    exact Ran.cons hok h
  | .ok (.ok ()), ⟨hcalls, hxs⟩ =>
    refine talks_log level pieces (fun cause => ?_) ?_
    · rw [List.append_nil]
      exact Ran.cons hok ⟨hcalls ▸ List.prefix_refl _, hxs, nofun⟩
    · rw [List.append_nil]
      exact Ran.cons hok ⟨hcalls, hxs⟩

theorem talks_bringUp (c : Config) :
    Talks Prod.fst (c.bringUp : ExceptT (BringUpError ε) (Proc (ScriptedMaster σ ε × κ)) Unit).run
      (Course c) := by
  unfold bringUp
  refine talks_request_bind c.readPll_eq (.starting ran_exhausted nofun)
    (fun reply e hfailed => .starting (ran_failed hfailed) nofun) fun first hfirst => ?_
  have hread : ∀ {xs : List (Call × Reply ε)} {out}, Ran [c.writeBlock] xs out →
      Ran c.start ((.serve c.readBlock, first) :: xs) out := fun h => Ran.cons hfirst h
  refine talks_log_bind _ _ (fun cause => ?_) ?_
  · exact .starting (hread ⟨List.nil_prefix, nofun, nofun⟩) nofun
  refine talks_request_bind (c.pokeMany_eq _ _) (.starting (hread ran_exhausted) nofun)
    (fun reply e hfailed => .starting (hread (ran_failed hfailed)) nofun) fun second hsecond => ?_
  have hbegun : Ran c.start [(.serve c.readBlock, first), (.serve c.writeBlock, second)]
      (.ok (.ok ())) := hread (Ran.cons hsecond ⟨rfl, nofun⟩)
  cases henabled : c.pll.isEnabled with
  | false =>
    have hready : c.Ready ([] : List (Call × Reply ε)) := by simp [Ready, henabled]
    exact (c.talks_finish _ _).mono fun xs out h => .finishing hbegun hready h
  | true =>
    rw [if_pos rfl, ExceptT.run_bind]
    refine Talks.bind (c.talks_awaitLock.mono fun polls out h => ?_)
    match out, h with
    | .error halt, h => exact .locking hbegun henabled h nofun
    | .ok (.error error), h =>
      refine Proc.talks_pure ?_
      rw [List.append_nil]
      exact .locking hbegun henabled h nofun
    | .ok (.ok ()), h =>
      have hready : c.Ready polls := by simpa [Ready, henabled] using h
      exact (c.talks_finish _ _).mono fun xs out hfinish => .finishing hbegun hready hfinish

end Config

end TwoWire.Codec
