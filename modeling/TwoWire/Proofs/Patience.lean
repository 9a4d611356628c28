import Mathlib
import TwoWire.Proofs.EngineTrace
import TwoWire.Proofs.Lockstep
import TwoWire.Sim.Script

/-!
# Longer patience

Two engines that differ in the bound on their waits serve the same request. As long as every wait
settles within the shorter bound they do the same, access by access. When a wait of the less patient
engine runs out, that engine reads the status once more for the record, which is what the next poll
of the other one begins with, and makes no access after that. So it never shows anything but the
first accesses of the more patient one (`extends_serve`).

Whatever does not wait is `Steady` on such a pair of engines. The two waits and what is made of them
`Extends`: an answer that is not a timeout is the same on both.
-/

namespace TwoWire

open Event

namespace RegisterBlock

variable {β : Type} [RegisterBlock β]

/-! ## Single accesses -/

theorem steady_load (width : Width) (offset : Nat) :
    (load width offset : Proc β width.Value).Steady Eq := by
  rintro block _ n m rfl hnm
  cases n with
  | zero => exact Exec.within_of_halt rfl List.nil_prefix
  | succ n =>
    obtain ⟨m, rfl⟩ := Nat.exists_eq_add_of_le' (Nat.le_trans (Nat.succ_pos n) hnm)
    simp only [load]
    cases RegisterBlock.read width offset block with
    | error fault => exact Exec.within_of_halt rfl (List.prefix_refl _)
    | ok result => exact Exec.Agrees.within ⟨rfl, rfl, rfl, Nat.le_of_succ_le_succ hnm⟩

theorem steady_store (width : Width) (offset : Nat) (value : width.Value) :
    (store width offset value : Proc β Unit).Steady Eq := by
  rintro block _ n m rfl hnm
  cases n with
  | zero => exact Exec.within_of_halt rfl List.nil_prefix
  | succ n =>
    obtain ⟨m, rfl⟩ := Nat.exists_eq_add_of_le' (Nat.le_trans (Nat.succ_pos n) hnm)
    simp only [store]
    cases RegisterBlock.write width offset value block with
    | error fault => exact Exec.within_of_halt rfl (List.prefix_refl _)
    | ok next => exact Exec.Agrees.within ⟨rfl, rfl, rfl, Nat.le_of_succ_le_succ hnm⟩

theorem costs_load (width : Width) (offset : Nat) :
    (load width offset : Proc β width.Value).Costs := by
  refine ⟨fun _ => ⟨rfl, .exhausted, rfl⟩, fun block n value hok => ?_⟩
  cases n with
  | zero => cases hok
  | succ n =>
    simp only [load]
    cases RegisterBlock.read width offset block <;> exact Nat.lt_succ_self n

end RegisterBlock

namespace Engine

open Log (Logger)

variable {β κ α : Type}

/-- The engine with another bound on its waits. -/
def withWait (policy : WaitPolicy) (engine : Engine β κ) : Engine β κ :=
  { engine with config := { engine.config with wait := policy } }

/-- Two engines that differ only in the bound on their waits. -/
def Differ (first second : WaitPolicy) (short long : Engine β κ) : Prop :=
  ∃ engine : Engine β κ, short = engine.withWait first ∧ long = engine.withWait second

/-- The result of a wait that ran out. -/
def TimedOut (result : Except TransferError Unit) : Prop :=
  ∃ condition, result = .error (.timeout condition)

variable {first second : WaitPolicy}

theorem differ_withWait (engine : Engine β κ) :
    Differ first second (engine.withWait first) (engine.withWait second) :=
  ⟨engine, rfl, rfl⟩

theorem Differ.registers_eq {short long : Engine β κ} (h : Differ first second short long) :
    short.registers = long.registers := by
  obtain ⟨engine, rfl, rfl⟩ := h
  rfl

/-! ## What does not wait -/

theorem steady_onRegisters {p : Proc β α} (hp : p.Steady Eq) :
    (onRegisters p : Proc (Engine β κ) α).Steady (Differ first second) := by
  refine hp.zoom Differ.registers_eq ?_
  rintro _ _ registers _ ⟨engine, rfl, rfl⟩ rfl
  exact differ_withWait { engine with registers }

theorem steady_log [Logger κ] (level : Log.Level) (pieces : List String) :
    (log level pieces : Proc (Engine β κ) Unit).Steady (Differ first second) := by
  have hnote : (Log.note .engine level pieces : Proc κ Unit).Steady Eq := by
    rintro logger _ n m rfl hnm
    simp only [Log.note]
    cases Logger.record level pieces logger <;> exact Exec.Agrees.within ⟨rfl, rfl, rfl, hnm⟩
  refine hnote.zoom ?_ ?_
  · rintro _ _ ⟨engine, rfl, rfl⟩
    rfl
  · rintro _ _ logger _ ⟨engine, rfl, rfl⟩ rfl
    exact differ_withWait { engine with logger }

variable [RegisterBlock β]

theorem steady_status :
    (status : Proc (Engine β κ) Status).Steady (Differ first second) :=
  (steady_onRegisters (RegisterBlock.steady_load .byte Offset.status)).bind fun _ =>
    Proc.steady_pure _

theorem steady_popByte :
    (popByte : Proc (Engine β κ) UInt8).Steady (Differ first second) :=
  steady_onRegisters (RegisterBlock.steady_load .byte Offset.rxFifo)

theorem steady_pushWord (word : TxWord) :
    (pushWord word : Proc (Engine β κ) Unit).Steady (Differ first second) :=
  steady_onRegisters (RegisterBlock.steady_store .half Offset.txFifo word.bits)

theorem costs_status : (status : Proc (Engine β κ) Status).Costs := by
  have hload : (onRegisters (RegisterBlock.load .byte Offset.status) :
      Proc (Engine β κ) UInt8).Costs := (RegisterBlock.costs_load .byte Offset.status).zoom
  exact hload.bind fun _ => Proc.thrifty_pure _

theorem costs_popByte : (popByte : Proc (Engine β κ) UInt8).Costs := by
  unfold popByte onRegisters
  exact (RegisterBlock.costs_load .byte Offset.rxFifo).zoom

/-! ## Emptying the receive FIFO -/

theorem steady_flush (limit : Nat) :
    (flush limit : Proc (Engine β κ) _).Steady (Differ first second) := by
  induction limit with
  | zero => exact Proc.steady_pure _
  | succ limit ih =>
    refine steady_status.bind fun s => ?_
    show Proc.Steady _ (if s.rxEmpty = true then _ else _)
    split
    · exact Proc.steady_pure _
    · refine steady_popByte.bind fun _ => ?_
      exact ih.bind fun _ => Proc.steady_pure _

/-- Every flush but that of nothing reads the status. -/
theorem costs_flush {limit : Nat} (hlimit : 0 < limit) :
    (flush limit : Proc (Engine β κ) _).Costs := by
  induction limit with
  | zero => exact absurd hlimit (Nat.lt_irrefl 0)
  | succ limit ih =>
    have hflush : (flush limit : Proc (Engine β κ) _).Thrifty := by
      cases limit with
      | zero => exact Proc.thrifty_pure _
      | succ limit => exact (ih (Nat.succ_pos limit)).thrifty
    refine costs_status.bind fun s => ?_
    show Proc.Thrifty (if s.rxEmpty = true then _ else _)
    split
    · exact Proc.thrifty_pure _
    · refine costs_popByte.thrifty.bind fun _ => ?_
      exact hflush.bind fun _ => Proc.thrifty_pure _

theorem steady_flushCounting :
    (flushCounting : Proc (Engine β κ × Nat) _).Steady (Proc.Beside (Differ first second)) := by
  refine (steady_flush rxFifoDepth).onFst.bind fun result => ?_
  refine Proc.Steady.bind (Proc.steady_modify ?_) fun _ => Proc.steady_pure _
  rintro ⟨_, total⟩ ⟨_, _⟩ ⟨hrelated, rfl⟩
  exact ⟨hrelated, rfl⟩

/-- A flush begins with a reading of the status. -/
theorem status_prefix_flushCounting (state : Engine β κ × Nat) (n : Nat) :
    accesses (Proc.onFst status state n).events <+: accesses (flushCounting state n).events := by
  have hflush : accesses (status state.1 n).events
      <+: accesses (flush rxFifoDepth state.1 n).events :=
    Proc.accesses_prefix_bind status _ state.1 n
  exact hflush.trans (Proc.accesses_prefix_bind (Proc.onFst (flush rxFifoDepth)) _ state n)

theorem costs_flushCounting : (flushCounting : Proc (Engine β κ × Nat) _).Costs := by
  have hflush : (Proc.onFst (flush rxFifoDepth) : Proc (Engine β κ × Nat) _).Costs :=
    (costs_flush (by decide)).zoom
  refine hflush.bind fun result => ?_
  exact (Proc.thrifty_modify _).bind fun _ => Proc.thrifty_pure _

/-! ## Giving up -/

variable [Logger κ]

omit [RegisterBlock β] in
/-- A record makes no access, and what follows finds the same registers. -/
theorem accesses_log_bind (level : Log.Level) (pieces : List String)
    (p : Proc (Engine β κ) α) (engine : Engine β κ) (n : Nat) :
    ∃ engine' : Engine β κ, engine'.registers = engine.registers
      ∧ accesses ((log level pieces >>= fun _ => p) engine n).events
        <+: accesses (p engine' n).events := by
  cases hrecord : Logger.record level pieces engine.logger with
  | error fault =>
    have hlog : log level pieces engine n
        = ⟨[.log .engine level (String.join pieces)], .error (.fault fault), engine, n⟩ := by
      simp [log, Proc.zoom, Log.note, hrecord]
    refine ⟨engine, rfl, ?_⟩
    rw [Proc.bind_of_halt (congrArg Exec.outcome hlog), hlog]
    exact List.nil_prefix
  | ok logger =>
    have hlog : log level pieces engine n
        = ⟨[.log .engine level (String.join pieces)], .ok (), { engine with logger }, n⟩ := by
      simp [log, Proc.zoom, Log.note, hrecord]
    refine ⟨{ engine with logger }, rfl, ?_⟩
    rw [Proc.bind_of_ok (congrArg Exec.outcome hlog), hlog]
    exact List.prefix_refl _

/-- Giving up shows no more than a reading of the status would, with no less to spend. -/
theorem timedOut_shows {short long : Engine β κ} {n m : Nat}
    (hregisters : short.registers = long.registers) (hnm : n ≤ m) (condition : Condition) :
    accesses (timedOut condition short n).events <+: accesses (status long m).events := by
  have hload : (onRegisters (RegisterBlock.load .byte Offset.status) :
      Proc (Engine β κ) UInt8).Steady fun s t => s.registers = t.registers :=
    (RegisterBlock.steady_load .byte Offset.status).zoom id fun _ h => h
  have hstatus : (status : Proc (Engine β κ) Status).Steady fun s t => s.registers = t.registers :=
    hload.bind fun _ => Proc.steady_pure _
  have hquiet : ∀ (pieces : List String) (engine : Engine β κ) (n : Nat),
      accesses ((log .error pieces >>= fun _ => pure (.error (.timeout condition)) :
        Proc (Engine β κ) (Except TransferError Unit)) engine n).events = [] := by
    intro pieces engine n
    obtain ⟨_, -, hlog⟩ := accesses_log_bind .error pieces
      (pure (.error (.timeout condition)) : Proc _ (Except TransferError Unit)) engine n
    exact List.prefix_nil.mp hlog
  unfold timedOut
  cases hs : (status short n).outcome with
  | error halt =>
    rw [Proc.bind_of_halt hs]
    exact (hstatus hregisters hnm).isPrefix
  | ok s =>
    rw [Proc.bind_of_ok hs, accesses_append, hquiet, List.append_nil]
    exact (hstatus hregisters hnm).isPrefix

theorem timedOut_answers {condition : Condition} {engine : Engine β κ} {n : Nat}
    {result : Except TransferError Unit}
    (h : (timedOut condition engine n).outcome = .ok result) : TimedOut result :=
  ⟨condition, (ensures_timedOut engine condition n result h).1⟩

theorem steady_timedOut (condition : Condition) :
    (timedOut condition : Proc (Engine β κ) _).Steady (Differ first second) := by
  refine steady_status.bind fun _ => ?_
  exact (steady_log _ _).bind fun _ => Proc.steady_pure _

theorem steady_endDrain (drained : Except Empty Bool) (count : Nat) :
    (endDrain drained count : Proc (Engine β κ) _).Steady (Differ first second) := by
  have hrecorded : ∀ (pieces : List String) (p : Proc (Engine β κ) (Except TransferError Unit)),
      p.Steady (Differ first second) →
      Proc.Steady (Differ first second) (if 0 < count then do log .debug pieces; p else p) := by
    intro pieces p hp
    split
    · exact (steady_log _ _).bind fun _ => hp
    · exact hp
  rcases drained with never | _ | _
  · exact never.elim
  · exact hrecorded _ _ (steady_timedOut _)
  · exact hrecorded _ _ (Proc.steady_pure _)

/-- The record of the discarded bytes changes nothing for who gives up. -/
theorem endDrain_shows {short long : Engine β κ} {n m : Nat}
    (hregisters : short.registers = long.registers) (hnm : n ≤ m) (count : Nat) :
    accesses (endDrain (.ok false) count short n).events <+: accesses (status long m).events := by
  unfold endDrain
  split
  · obtain ⟨short', hsame, hlog⟩ := accesses_log_bind .debug
      ["axi-iic: discarded ", toString (min count maxDiscarded), " stale rx bytes"]
      (timedOut .rxDrained : Proc (Engine β κ) _) short n
    exact hlog.trans (timedOut_shows (hsame.trans hregisters) hnm _)
  · exact timedOut_shows hregisters hnm _

theorem endDrain_answers {count : Nat} {engine : Engine β κ} {n : Nat}
    {result : Except TransferError Unit}
    (h : (endDrain (.ok false) count engine n).outcome = .ok result) : TimedOut result :=
  ⟨.rxDrained, (ensures_endDrain engine (.ok false) count n result h).1⟩

/-! ## Waits -/

section Waits

variable (hpatience : first.NoLonger second)
include hpatience

theorem extends_await (flag : Flag) :
    (await flag : Proc (Engine β κ) _).Extends (Differ first second) TimedOut := by
  have hsteady : (do return .ok (flag.holds (← status)) :
      Proc (Engine β κ) (Except Empty Bool)).Steady (Differ first second) :=
    steady_status.bind fun _ => Proc.steady_pure _
  have hcosts : (do return .ok (flag.holds (← status)) :
      Proc (Engine β κ) (Except Empty Bool)).Costs :=
    costs_status.bind fun _ => Proc.thrifty_pure _
  rintro _ _ n m ⟨engine, rfl, rfl⟩ hnm
  unfold await
  rw [Proc.get_bind_apply, Proc.get_bind_apply]
  refine Proc.within_bind
    (polled_pollUntil hsteady hcosts hpatience (differ_withWait engine) hnm) ?_ ?_
  · rintro _ hanswer ⟨rfl, houtpaced⟩
    have hglance := houtpaced.mono fun long m => Proc.accesses_prefix_bind status _ long m
    exact Proc.within_bind_of_outpaced hanswer hglance
      (fun hrelated hle => timedOut_shows hrelated.registers_eq hle _)
      fun _ _ _ hresult => timedOut_answers hresult
  · intro answer _ hagrees
    match answer with
    | .ok true => exact (Proc.steady_pure _).extends hagrees.related hagrees.left_le
    | .ok false => exact (steady_timedOut _).extends hagrees.related hagrees.left_le

theorem extends_drain : (drain : Proc (Engine β κ) _).Extends (Differ first second) TimedOut := by
  rintro _ _ n m ⟨engine, rfl, rfl⟩ hnm
  have hbeside : Proc.Beside (Differ first second)
      (engine.withWait first, 0) (engine.withWait second, 0) :=
    ⟨differ_withWait engine, rfl⟩
  rw [drain_eq, Proc.get_bind_apply, Proc.get_bind_apply]
  refine Proc.within_bind (Proc.within_withLocal (polled_pollUntil steady_flushCounting
    costs_flushCounting hpatience hbeside hnm)) ?_ ?_
  · rintro ⟨_, count⟩ hanswer ⟨rfl, houtpaced⟩
    have hglance := houtpaced.mono status_prefix_flushCounting
    exact Proc.within_bind_of_outpaced hanswer (Proc.outpaced_withLocal hglance)
      (fun hrelated hle => endDrain_shows hrelated.registers_eq hle count)
      fun _ _ _ hresult => endDrain_answers hresult
  · rintro ⟨drained, count⟩ _ hagrees
    exact (steady_endDrain drained count).extends hagrees.related hagrees.left_le

/-! ## Transfers -/

theorem extends_perform (move : Move) :
    (perform move : Proc (Engine β κ) _).Extends (Differ first second)
      fun reply => TimedOut reply.result := by
  cases move with
  | await flag =>
    exact (extends_await hpatience flag).bind (fun _ h => ⟨_, h, rfl⟩) fun _ =>
      (Proc.steady_pure _).extends
  | drain =>
    exact (extends_drain hpatience).bind (fun _ h => ⟨_, h, rfl⟩) fun _ =>
      (Proc.steady_pure _).extends
  | push word => exact (steady_pushWord word).bind fun _ => (Proc.steady_pure _).extends
  | pop => exact steady_popByte.bind fun _ => (Proc.steady_pure _).extends
  | refuse error => exact (Proc.steady_pure _).extends

theorem extends_performAll (moves : List Move) :
    (performAll moves : Proc (Engine β κ) _).Extends (Differ first second)
      fun reply => TimedOut reply.result := by
  induction moves with
  | nil => exact (Proc.steady_pure _).extends
  | cons move rest ih =>
    refine (extends_perform hpatience move).bind ?_ fun reply => ?_
    -- a wait that ran out is the last move
    · rintro ⟨_, received⟩ ⟨condition, rfl⟩
      exact ⟨_, ⟨condition, rfl⟩, rfl⟩
    · obtain ⟨result, received⟩ := reply
      match result with
      | .error error => exact (Proc.steady_pure _).extends
      | .ok () => exact ih.map fun _ h => h

theorem extends_serve (request : Request) :
    (serve request : Proc (Engine β κ) _).Extends (Differ first second)
      fun reply => TimedOut reply.result := by
  rintro _ _ n m ⟨engine, rfl, rfl⟩ hnm
  have hplan : ∀ policy, (engine.withWait policy).plan request = engine.plan request :=
    fun _ => rfl
  unfold serve
  rw [Proc.get_bind_apply, Proc.get_bind_apply, hplan, hplan]
  cases engine.plan request with
  | error error => exact (Proc.steady_pure _).extends (differ_withWait engine) hnm
  | ok moves => exact extends_performAll hpatience moves (differ_withWait engine) hnm

end Waits

/--
**A longer patience only goes on where the shorter one ends.**

The same request is served under two policies, of which the second allows at least as many polls,
and with no less to spend. Whatever the less patient engine shows on the registers, a last reading
of the status included, the more patient one shows first. If the less patient one answers anything
but a timeout, then the other gives the same reply, hence the same contents of the buffers, after
the same accesses, and leaves the same registers and the same engine but for the policy. If the
first policy is without bound, and so may never answer, the two calls are one and the same.
-/
theorem serve_outlasts (hpatience : first.NoLonger second) (request : Request)
    (engine : Engine β κ) {n m : Nat} (hnm : n ≤ m) :
    let short := serve request (engine.withWait first) n
    let long := serve request (engine.withWait second) m
    accesses short.events <+: accesses long.events
      ∧ (∀ reply, short.outcome = .ok reply →
        (∀ condition, reply.result ≠ .error (.timeout condition)) →
        long.outcome = .ok reply
          ∧ accesses long.events = accesses short.events
          ∧ long.state.registers = short.state.registers
          ∧ ∃ after : Engine β κ, short.state = after.withWait first
            ∧ long.state = after.withWait second)
      ∧ (first = .infinite →
        serve request (engine.withWait second) = serve request (engine.withWait first)) := by
  intro short long
  have hwithin : short.Within (Differ first second) (fun reply => TimedOut reply.result) long :=
    extends_serve hpatience request (differ_withWait engine) hnm
  refine ⟨hwithin.isPrefix, fun reply hreply hsettled => ?_, fun hfirst => ?_⟩
  · rcases hwithin.answer reply hreply with ⟨condition, htimeout⟩ | hagrees
    · exact absurd htimeout (hsettled condition)
    · refine ⟨hagrees.outcome_eq.trans hreply, hagrees.accesses_eq, ?_, hagrees.related⟩
      exact hagrees.related.registers_eq.symm
  · rw [hfirst] at hpatience ⊢
    rw [hpatience.eq_infinite]

/-- A bus that is busy for two readings: one engine gives up at the third, two others do not. -/
theorem busy_bus_outlasted :
    let engine : Engine Sim.ScriptedRegisters Unit :=
      ⟨.standard, true, ⟨[0x04, 0x04, 0xC0], []⟩, ()⟩
    let served := fun policy => serve (.write 0x48 [7]) (engine.withWait policy)
    let hasty := WaitPolicy.bounded 1 1
    let patient := WaitPolicy.bounded 20 5
    hasty.NoLonger patient ∧ patient.NoLonger .infinite
      ∧ (served hasty 30).outcome = .ok ⟨.error (.timeout .busIdle), []⟩
      ∧ accesses (served hasty 30).events
        = [readStatus ⟨0x04⟩, readStatus ⟨0x04⟩, readStatus ⟨0xC0⟩]
      ∧ accesses (served hasty 30).events <+: accesses (served patient 40).events
      ∧ (served patient 40).outcome = .ok ⟨.ok (), []⟩
      ∧ (served .infinite 40).outcome = .ok ⟨.ok (), []⟩ := by
  intro engine served hasty patient
  have hhasty : hasty.NoLonger patient := by decide
  have hpatient : patient.NoLonger .infinite := by decide
  have hdone : (served patient 40).outcome = .ok ⟨.ok (), []⟩ := by cbv
  have hgoesOn := serve_outlasts hhasty (.write 0x48 [7]) engine (show 30 ≤ 40 by decide)
  have hagrees := serve_outlasts hpatient (.write 0x48 [7]) engine (Nat.le_refl 40)
  have hsettled : ∀ condition, (Except.ok () : Except TransferError Unit)
      ≠ .error (.timeout condition) := by
    intro condition h
    cases h
  have hsame := (hagrees.2.1 _ hdone hsettled).1
  exact ⟨hhasty, hpatient, by cbv, by cbv, hgoesOn.1, hdone, hsame⟩

end Engine

end TwoWire
