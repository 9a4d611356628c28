import Mathlib
import TwoWire.Proofs.Handshake
import TwoWire.Proofs.Refusal
import TwoWire.Proofs.Sleepless
import TwoWire.Proofs.Spending

/-!
# The budget of a transfer

Every wait under a bounded policy ends, whatever the registers answer: so does a transfer, and the
number of accesses it can take is known before it starts (`accessLimit`). One poll of a wait is one
reading of the status; one poll of a drain is at most a reading and a byte for each place of the
receive FIFO. `Engine.Affords` says of some moves what they take together, and joins along `++`; a
wait that runs out takes one more reading, and ends the transfer.

Registers and a logger may end a run by themselves. That they do not is `Engine.Sound`; it is asked
of them only where an answer is promised.
-/

namespace TwoWire

open Event

namespace Leg

/-- The reads among some legs. -/
def readLegs (legs : List Leg) : Nat := legs.countP fun leg => leg.direction = .read

/--
The most accesses of a transfer with these legs, if each wait makes up to `polls` polls: two waits
and a drain open it and at most two close it, each read waits for its words to be sent, each byte
waits to be there, and one reading goes with the record of a wait that ran out.
-/
def accessLimit (polls : Nat) (addr : UInt8) (legs : List Leg) : Nat :=
  polls * (36 + readLegs legs + readTotal legs) + readTotal legs + (allWords addr legs).length + 1

end Leg

namespace Engine

open Log (Logger)

variable {β κ : Type} [RegisterBlock β] [Logger κ]

/-- Registers and a logger that do all that a transfer asks of them, in any state. -/
structure Sound (β κ : Type) [RegisterBlock β] [Logger κ] : Prop where
  status : ∀ block : β, ∃ result, RegisterBlock.read .byte Offset.status block = .ok result
  rxFifo : ∀ block : β, ∃ result, RegisterBlock.read .byte Offset.rxFifo block = .ok result
  /-- The words of a leg are taken one after another. -/
  words : ∀ (leg : Leg) addr last (block : β), ∃ after, (leg.words addr last).foldlM
    (fun block word => RegisterBlock.write .half Offset.txFifo word.bits block) block = .ok after
  record : ∀ level pieces (logger : κ), ∃ next, Logger.record level pieces logger = .ok next

section Spends

variable {flaw : Prop} (hsound : ¬flaw → Sound β κ) (engine : Engine β κ)
include hsound

/-! ## Single accesses -/

theorem spends_status : (status : Proc (Engine β κ) Status).Spends flaw engine 1
    fun _ _ engine' => engine'.config = engine.config := by
  have hload : (onRegisters (RegisterBlock.load .byte Offset.status) :
      Proc (Engine β κ) UInt8).Spends flaw engine 1 fun _ _ engine' =>
        engine'.config = engine.config := by
    refine Proc.Spends.zoom ((RegisterBlock.spends_load fun h => ?_).mono (Nat.le_refl 1) ?_)
    · exact (hsound h).status engine.registers
    · exact fun _ _ _ _ _ => rfl
  exact Proc.Spends.bind _ 0 (hload.mono (Nat.le_refl 1) fun _ _ _ _ hsame =>
    Proc.spends_pure hsame)

theorem spends_popByte : (popByte : Proc (Engine β κ) UInt8).Spends flaw engine 1
    fun _ _ engine' => engine'.config = engine.config := by
  unfold popByte onRegisters
  refine Proc.Spends.zoom ((RegisterBlock.spends_load fun h => ?_).mono (Nat.le_refl 1) ?_)
  · exact (hsound h).rxFifo engine.registers
  · exact fun _ _ _ _ _ => rfl

omit [Logger κ] hsound in
theorem spends_pushWord (word : TxWord)
    (htaken : ¬flaw → ∃ after,
      RegisterBlock.write .half Offset.txFifo word.bits engine.registers = .ok after) :
    (pushWord word : Proc (Engine β κ) Unit).Spends flaw engine 1 fun _ _ engine' =>
      engine'.config = engine.config
        ∧ RegisterBlock.write .half Offset.txFifo word.bits engine.registers
          = .ok engine'.registers := by
  unfold pushWord onRegisters
  refine Proc.Spends.zoom ((RegisterBlock.spends_store htaken).mono (Nat.le_refl 1) ?_)
  exact fun _ _ _ _ h => ⟨rfl, h.2⟩

theorem spends_log (level : Log.Level) (pieces : List String) :
    (log level pieces : Proc (Engine β κ) Unit).Spends flaw engine 0
      fun _ _ engine' => engine'.config = engine.config := by
  refine Proc.Spends.zoom ((Log.spends_note fun h => ?_).mono (Nat.le_refl 0) ?_)
  · exact (hsound h).record level pieces engine.logger
  · exact fun _ _ _ _ _ => rfl

/-! ## Waits -/

/-- Giving up takes the reading for the record. -/
theorem spends_timedOut (condition : Condition) :
    (timedOut condition : Proc (Engine β κ) _).Spends flaw engine 1 fun _ result engine' =>
      engine'.config = engine.config ∧ result = .error (.timeout condition) := by
  refine Proc.Spends.bind _ 0 ((spends_status hsound engine).mono (Nat.le_refl 1) ?_)
  intro _ s after _ hsame
  refine Proc.Spends.bind _ 0 ((spends_log hsound after _ _).mono (Nat.le_refl 0) ?_)
  intro _ _ last _ hlast
  exact Proc.spends_pure ⟨hlast.trans hsame, rfl⟩

/-- A wait takes a reading a poll, and one more only if it runs out. -/
theorem spends_await {k : Nat} (hpolls : engine.config.wait.maxPolls = some k) (flag : Flag) :
    (await flag : Proc (Engine β κ) _).Spends flaw engine (k + 2) fun spent result engine' =>
      engine'.config = engine.config ∧ (result = .ok () → spent ≤ k + 1) := by
  have hready : ∀ after : Engine β κ, after.config = engine.config →
      (do return .ok (flag.holds (← status)) : Proc (Engine β κ) (Except Empty Bool)).Spends flaw
        after 1 fun _ _ last => last.config = engine.config := by
    intro after hsame
    refine Proc.Spends.bind _ 0 ((spends_status hsound after).mono (Nat.le_refl 1) ?_)
    intro _ s last _ hlast
    exact Proc.spends_pure (hlast.trans hsame)
  have hpolled := spends_pollUntil .engine hpolls hready (rfl : engine.config = _)
  have hwait : (await flag : Proc (Engine β κ) _).Spends flaw engine (0 + (k + 2))
      fun spent result engine' =>
        engine'.config = engine.config ∧ (result = .ok () → spent ≤ k + 1) := by
    refine Proc.Spends.bind _ _ (Proc.spends_get ?_)
    refine Proc.Spends.bind_within (hpolled.mono (Nat.le_refl _) ?_) (by omega)
    intro spent settled after _ hsame hspent
    match settled with
    | .ok true =>
      refine ⟨0, by omega, Proc.spends_pure ⟨hsame, fun _ => ?_⟩⟩
      omega
    | .ok false =>
      refine ⟨1, by omega, (spends_timedOut hsound after flag.condition).mono (Nat.le_refl 1) ?_⟩
      rintro _ _ last - ⟨hlast, rfl⟩
      exact ⟨hlast.trans hsame, nofun⟩
  rwa [Nat.zero_add] at hwait

theorem spends_flush (limit : Nat) :
    (flush limit : Proc (Engine β κ) _).Spends flaw engine (2 * limit)
      fun _ _ engine' => engine'.config = engine.config := by
  induction limit generalizing engine with
  | zero => exact Proc.spends_pure rfl
  | succ limit ih =>
    have htwo : 2 * (limit + 1) = 1 + (1 + (2 * limit + 0)) := by omega
    rw [htwo]
    refine Proc.Spends.bind _ _ ((spends_status hsound engine).mono (Nat.le_refl 1) ?_)
    intro _ s after _ hsame
    show Proc.Spends _ (if s.rxEmpty = true then _ else _) _ _ _
    split
    · exact Proc.spends_pure hsame
    · refine Proc.Spends.bind _ _ ((spends_popByte hsound after).mono (Nat.le_refl 1) ?_)
      intro _ _ taken _ htaken
      refine Proc.Spends.bind _ _ ((ih taken).mono (Nat.le_refl _) ?_)
      intro _ _ last _ hlast
      exact Proc.spends_pure (hlast.trans (htaken.trans hsame))

/-- A poll of a drain flushes once: it takes a reading and a byte for each place of the FIFO. -/
theorem spends_flushCounting (state : Engine β κ × Nat) :
    (flushCounting : Proc (Engine β κ × Nat) _).Spends flaw state 32
      fun _ _ after => after.1.config = state.1.config := by
  refine Proc.Spends.bind 32 0 (Proc.Spends.zoom ?_)
  refine (spends_flush hsound state.1 rxFifoDepth).mono (by decide) ?_
  intro _ _ after _ hsame
  refine Proc.Spends.bind 0 0 (Proc.spends_modify ?_)
  exact Proc.spends_pure hsame

/-- A record of discarded bytes takes no access from what comes after it. -/
theorem spends_noted {α : Type} {rest : Proc (Engine β κ) α} {limit : Nat}
    {post : Nat → α → Engine β κ → Prop} {noted : Prop} [Decidable noted] (level : Log.Level)
    (pieces : List String)
    (h : ∀ after : Engine β κ, after.config = engine.config → rest.Spends flaw after limit post) :
    (if noted then log level pieces >>= fun _ => rest else rest).Spends flaw engine limit post := by
  split
  · rw [← Nat.zero_add limit]
    refine Proc.Spends.bind 0 limit ?_
    refine (spends_log hsound engine level pieces).mono (Nat.le_refl 0) ?_
    intro spent _ after hspent hsame
    obtain rfl : spent = 0 := Nat.le_zero.mp hspent
    refine (h after hsame).mono (Nat.le_refl limit) fun more a last _ hpost => ?_
    rw [Nat.zero_add]
    exact hpost
  · exact h engine rfl

theorem spends_endDrain (drained : Except Empty Bool) (count : Nat) :
    (endDrain drained count : Proc (Engine β κ) _).Spends flaw engine 1
      fun spent result engine' =>
        engine'.config = engine.config ∧ (result = .ok () → spent = 0 ∧ drained = .ok true) := by
  cases drained with
  | error never => exact never.elim
  | ok emptied =>
    refine spends_noted hsound engine _ _ fun after hsame => ?_
    cases emptied with
    | true => exact Proc.spends_pure ⟨hsame, fun _ => ⟨rfl, rfl⟩⟩
    | false =>
      refine (spends_timedOut hsound after .rxDrained).mono (Nat.le_refl 1) ?_
      rintro _ _ last - ⟨hlast, rfl⟩
      refine ⟨hlast.trans hsame, fun hok => ?_⟩
      cases hok

theorem spends_drain {k : Nat} (hpolls : engine.config.wait.maxPolls = some k) :
    (drain : Proc (Engine β κ) _).Spends flaw engine ((k + 1) * 32 + 1)
      fun spent result engine' =>
        engine'.config = engine.config ∧ (result = .ok () → spent ≤ (k + 1) * 32) := by
  have hready : ∀ state : Engine β κ × Nat, state.1.config = engine.config →
      (flushCounting : Proc (Engine β κ × Nat) _).Spends flaw state 32
        fun _ _ after => after.1.config = engine.config := by
    intro state hsame
    refine (spends_flushCounting hsound state).mono (Nat.le_refl 32) ?_
    exact fun _ _ _ _ hafter => hafter.trans hsame
  have hpolled := spends_pollUntil .engine (s := (engine, 0)) hpolls hready rfl
  have hdrain : (drain : Proc (Engine β κ) _).Spends flaw engine (0 + ((k + 1) * 32 + 1))
      fun spent result engine' =>
        engine'.config = engine.config ∧ (result = .ok () → spent ≤ (k + 1) * 32) := by
    rw [drain_eq]
    refine Proc.Spends.bind _ _ (Proc.spends_get ?_)
    refine Proc.Spends.bind _ _ (Proc.Spends.withLocal (hpolled.mono (Nat.le_refl _) ?_))
    intro spent drained state hspent hsame
    refine (spends_endDrain hsound state.1 drained state.2).mono (Nat.le_refl 1) ?_
    rintro more result last - ⟨hlast, hmet⟩
    refine ⟨hlast.trans hsame, fun hok => ?_⟩
    obtain ⟨hnone, -⟩ := hmet hok
    omega
  rwa [Nat.zero_add] at hdrain

end Spends

/-! ## Moves -/

/--
Carried out by any engine that polls up to `k` times after the first, the moves take at most `cost`
accesses; they take one more if they end with a wait that runs out.
-/
def Affords (β κ : Type) [RegisterBlock β] [Logger κ] (flaw : Prop) (k : Nat) (moves : List Move)
    (cost : Nat) : Prop :=
  ∀ engine : Engine β κ, engine.config.wait.maxPolls = some k →
    (performAll moves).Spends flaw engine (cost + 1) fun spent reply engine' =>
      engine'.config = engine.config ∧ (reply.result = .ok () → spent ≤ cost)

section Affords

variable {flaw : Prop} {k : Nat}

theorem affords_nil : Affords β κ flaw k [] 0 :=
  fun _ _ => Proc.spends_pure ⟨rfl, fun _ => Nat.le_refl 0⟩

/-- Moves joined take together what each part takes. -/
theorem Affords.append {first second : List Move} {cost cost' : Nat}
    (h : Affords β κ flaw k first cost) (h' : Affords β κ flaw k second cost') :
    Affords β κ flaw k (first ++ second) (cost + cost') := by
  intro engine hpolls
  rw [performAll_append]
  refine Proc.Spends.bind_within ((h engine hpolls).mono (Nat.le_refl _) ?_) (by omega)
  intro spent reply after hbound hdone hspent
  obtain ⟨hsame, hcost⟩ := hdone
  obtain ⟨result, received⟩ := reply
  match result with
  | .error error => exact ⟨0, by omega, Proc.spends_pure ⟨hsame, nofun⟩⟩
  | .ok () =>
    have hle : spent ≤ cost := hcost rfl
    refine ⟨cost' + 1, by omega, Proc.Spends.map ?_⟩
    refine (h' after (by rw [hsame]; exact hpolls)).mono (Nat.le_refl _) ?_
    intro more later last _ hlater
    obtain ⟨hlast, hcost'⟩ := hlater
    refine ⟨hlast.trans hsame, fun hok => ?_⟩
    have hle' : more ≤ cost' := hcost' hok
    omega

/-- What one move spends, and what it spends if it succeeds. -/
theorem affords_move {move : Move} {cost : Nat}
    (h : ∀ engine : Engine β κ, engine.config.wait.maxPolls = some k →
      (perform move).Spends flaw engine (cost + 1) fun spent reply engine' =>
        engine'.config = engine.config ∧ (reply.result = .ok () → spent ≤ cost)) :
    Affords β κ flaw k [move] cost := by
  intro engine hpolls
  refine Proc.Spends.bind _ 0 ((h engine hpolls).mono (Nat.le_refl _) ?_)
  intro spent reply after _ hdone
  obtain ⟨result, received⟩ := reply
  match result with
  | .error error => exact Proc.spends_pure hdone
  | .ok () => exact Proc.Spends.map (Proc.spends_pure hdone)

/-- Words queued one after another take an access each, if each is taken where it comes. -/
theorem spends_pushAll {words : List TxWord} (engine : Engine β κ)
    (htaken : ¬flaw → ∃ after, words.foldlM
      (fun block word => RegisterBlock.write .half Offset.txFifo word.bits block) engine.registers
        = .ok after) :
    (performAll (Move.pushAll words)).Spends flaw engine words.length
      fun _ _ engine' => engine'.config = engine.config := by
  induction words generalizing engine with
  | nil => exact Proc.spends_pure rfl
  | cons word rest ih =>
    have hword : ¬flaw → ∃ after,
        RegisterBlock.write .half Offset.txFifo word.bits engine.registers = .ok after := by
      intro hsound
      obtain ⟨last, hlast⟩ := htaken hsound
      cases hwrite : RegisterBlock.write .half Offset.txFifo word.bits engine.registers with
      | ok after => exact ⟨after, rfl⟩
      | error fault => simp [List.foldlM_cons, hwrite, bind, Except.bind] at hlast
    rw [List.length_cons, Nat.add_comm]
    show Proc.Spends flaw (perform (.push word) >>= _) engine _ _
    refine Proc.Spends.bind _ _ (Proc.Spends.bind 1 0
      ((spends_pushWord engine word hword).mono (Nat.le_refl 1) ?_))
    intro _ _ after _ hdone
    obtain ⟨hsame, hwrite⟩ := hdone
    refine Proc.spends_pure (Proc.Spends.map ?_)
    refine (ih after fun hsound => ?_).mono (Nat.le_refl _) ?_
    · obtain ⟨last, hlast⟩ := htaken hsound
      rw [List.foldlM_cons, hwrite] at hlast
      exact ⟨last, hlast⟩
    · exact fun _ _ _ _ hlast => hlast.trans hsame

theorem affords_pushAll {words : List TxWord}
    (htaken : ¬flaw → ∀ block : β, ∃ after, words.foldlM
      (fun block word => RegisterBlock.write .half Offset.txFifo word.bits block) block
        = .ok after) :
    Affords β κ flaw k (Move.pushAll words) words.length := by
  intro engine _
  refine (spends_pushAll engine fun hsound => htaken hsound engine.registers).mono
    (Nat.le_succ _) ?_
  exact fun spent _ _ hspent hsame => ⟨hsame, fun _ => hspent⟩

variable (hsound : ¬flaw → Sound β κ)
include hsound

theorem affords_await (flag : Flag) : Affords β κ flaw k [.await flag] (k + 1) := by
  refine affords_move fun engine hpolls => ?_
  unfold perform
  refine Proc.Spends.bind _ 0 ((spends_await hsound engine hpolls flag).mono
    (Nat.le_refl _) ?_)
  exact fun _ _ _ _ hdone => Proc.spends_pure hdone

theorem affords_drain : Affords β κ flaw k [.drain] ((k + 1) * 32) := by
  refine affords_move fun engine hpolls => ?_
  refine Proc.Spends.bind _ 0 ((spends_drain hsound engine hpolls).mono
    (Nat.le_refl _) ?_)
  exact fun _ _ _ _ hdone => Proc.spends_pure hdone

theorem affords_pop : Affords β κ flaw k [.pop] 1 := by
  refine affords_move fun engine _ => ?_
  refine Proc.Spends.bind 1 1 ((spends_popByte hsound engine).mono
    (Nat.le_refl 1) ?_)
  exact fun spent _ _ hspent hsame => Proc.spends_pure ⟨hsame, fun _ => hspent⟩

theorem affords_receive (count : Nat) :
    Affords β κ flaw k (Move.receive count) (count * (k + 2)) := by
  induction count with
  | zero =>
    rw [Move.receive, Nat.zero_mul]
    exact affords_nil
  | succ count ih =>
    have hsum : (count + 1) * (k + 2) = (k + 1) + (1 + count * (k + 2)) := by
      rw [Nat.succ_mul]
      omega
    rw [hsum]
    exact (affords_await hsound .rxData).append ((affords_pop hsound).append ih)

/-- A leg takes its words; a read takes a wait more, and a wait and an access for each byte. -/
theorem affords_frame (addr : UInt8) (legs : List Leg) :
    Affords β κ flaw k (Leg.frame addr legs)
      ((Leg.allWords addr legs).length + Leg.readLegs legs * (k + 1)
        + Leg.readTotal legs * (k + 2)) := by
  induction legs with
  | nil =>
    have hnone : Leg.readLegs [] = 0 := rfl
    rw [Leg.frame, Leg.allWords, hnone, Leg.readTotal, Nat.zero_mul, Nat.zero_mul]
    exact affords_nil
  | cons leg rest ih =>
    have hwords : Affords β κ flaw k (Move.pushAll (leg.words addr rest.isEmpty))
        (leg.words addr rest.isEmpty).length :=
      affords_pushAll fun h => (hsound h).words leg addr rest.isEmpty
    rw [Leg.frame, Leg.allWords, List.length_append]
    cases leg with
    | write bytes =>
      have hreads : Leg.readLegs (.write bytes :: rest) = Leg.readLegs rest := by
        rw [Leg.readLegs, List.countP_cons_of_neg (by simp [Leg.direction]), Leg.readLegs]
      rw [hreads, Leg.readTotal, Leg.collect, List.append_nil, Nat.add_assoc, Nat.add_assoc,
        ← Nat.add_assoc _ _ (Leg.readTotal rest * (k + 2))]
      exact hwords.append ih
    | read count =>
      have hreads : Leg.readLegs (.read count :: rest) = Leg.readLegs rest + 1 := by
        rw [Leg.readLegs, List.countP_cons_of_pos (by simp [Leg.direction]), Leg.readLegs]
      have hcollect : Affords β κ flaw k (Leg.collect (.read count)) ((k + 1) + count * (k + 2)) :=
        (affords_await hsound .txEmpty).append (affords_receive hsound count)
      have hall := (hwords.append hcollect).append ih
      rw [hreads, Leg.readTotal, Nat.succ_mul, Nat.add_mul]
      intro engine hpolls
      refine (hall engine hpolls).mono (by omega) fun spent reply after _ hdone => ?_
      exact ⟨hdone.1, fun hok => Nat.le_trans (hdone.2 hok) (by omega)⟩

/-- **What a transfer takes, however its waits end.** -/
theorem spends_layout (engine : Engine β κ) (hpolls : engine.config.wait.maxPolls = some k)
    (addr : UInt8) (legs : List Leg) :
    (performAll (Leg.layout addr legs)).Spends flaw engine (Leg.accessLimit (k + 1) addr legs)
      fun _ _ engine' => engine'.config = engine.config := by
  unfold Leg.layout
  split
  · exact Proc.spends_pure rfl
  · have hopening : Affords β κ flaw k Move.opening ((k + 1) + ((k + 1) + (k + 1) * 32)) :=
      (affords_await hsound .busIdle).append
        ((affords_await hsound .txEmpty).append (affords_drain hsound))
    have hclosing : Affords β κ flaw k (Move.closing (Leg.lastDirection legs))
        ((k + 1) + (k + 1)) := by
      cases Leg.lastDirection legs with
      | write => exact (affords_await hsound .txEmpty).append (affords_await hsound .busIdle)
      | read =>
        intro engine hpolls
        refine (affords_await hsound .busIdle engine hpolls).mono (by omega) ?_
        exact fun _ _ _ _ hdone => ⟨hdone.1, fun hok => Nat.le_add_right_of_le (hdone.2 hok)⟩
    have hall := (hopening.append (affords_frame hsound addr legs)).append hclosing
    refine (hall engine hpolls).mono ?_ fun _ _ _ _ hdone => hdone.1
    have hbytes : Leg.readTotal legs * (k + 2)
        = (k + 1) * Leg.readTotal legs + Leg.readTotal legs := by
      rw [Nat.mul_succ, Nat.mul_comm]
    have hwaits : Leg.readLegs legs * (k + 1) = (k + 1) * Leg.readLegs legs := Nat.mul_comm _ _
    have hpolled : (k + 1) * (36 + Leg.readLegs legs + Leg.readTotal legs)
        = (k + 1) * 36 + (k + 1) * Leg.readLegs legs + (k + 1) * Leg.readTotal legs := by
      rw [Nat.mul_add, Nat.mul_add]
    unfold Leg.accessLimit
    rw [hbytes, hwaits, hpolled]
    omega

end Affords

/-! ## Requests -/

/-- A request that is not refused spends at most what its layout does. -/
theorem spends_serve {flaw : Prop} (hsound : ¬flaw → Sound β κ) {engine : Engine β κ}
    {request : Request} {k : Nat} (hpolls : engine.config.wait.maxPolls = some k)
    (haccepted : ∀ error, ¬engine.Refuses request error) :
    (serve request).Spends flaw engine (Leg.accessLimit (k + 1) request.addr request.legs)
      fun _ _ engine' => engine'.config = engine.config := by
  obtain ⟨moves, hplan, -⟩ := exists_plan haccepted
  obtain ⟨-, -, -, -, rfl⟩ := (plan_eq_ok_iff engine).mp hplan
  intro n
  rw [serve_of_plan hplan]
  exact spends_layout hsound engine hpolls request.addr request.legs n

/--
**Bounded waits end on any registers; unbounded ones neither sleep nor give up.**

Let the policy allow `k` polls after the first, and let the request not be refused. Whatever the
registers answer, and however the run ends, it makes at most
`(k + 1) * (36 + R + N) + N + W + 1` accesses, where the request has `R` runs of reads, reads `N`
bytes and queues `W` words. So it does not run out of an allowance of that size: it ends with a
reply, unless the registers or the logger end it, and there is a reply if they do all that they are
asked. The reply is success or a timeout.

Under the policy without bound, no request sleeps however it ends, and no reply is a timeout.
-/
theorem serve_ends_in_time (engine : Engine β κ) (request : Request) (allowance : Nat) :
    let run := serve request engine allowance
    let reads := Leg.readLegs request.legs
    let bytes := Leg.readTotal request.legs
    let words := (Leg.allWords request.addr request.legs).length
    (∀ k, engine.config.wait.maxPolls = some k → (∀ error, ¬engine.Refuses request error) →
        let limit := (k + 1) * (36 + reads + bytes) + bytes + words + 1
        (accesses run.events).length ≤ limit
          ∧ (limit ≤ allowance → run.outcome ≠ .error .exhausted)
          ∧ (limit ≤ allowance → Sound β κ → ∃ reply, run.outcome = .ok reply)
          ∧ ∀ reply, run.outcome = .ok reply →
            reply.result = .ok () ∨ ∃ condition, reply.result = .error (.timeout condition))
      ∧ (engine.config.wait = .infinite →
        (∀ part ns, .sleep part ns ∉ run.events)
          ∧ ∀ reply condition, run.outcome = .ok reply →
            reply.result ≠ .error (.timeout condition)) := by
  intro run reads bytes words
  refine ⟨fun k hpolls haccepted => ?_, fun hwait => ?_⟩
  · intro limit
    -- whether the surroundings are sound is not known here, so that they are not is the flaw
    have hspends : (serve request).Spends (¬Sound β κ) engine limit
        fun _ _ engine' => engine'.config = engine.config :=
      spends_serve Classical.not_not.mp hpolls haccepted
    refine ⟨hspends.length_le allowance, hspends.ne_exhausted, fun hle hsound => ?_, ?_⟩
    · exact hspends.exists_answer (fun hnot => hnot hsound) hle
    · exact fun reply hreply => eq_ok_or_timeout_of_serve haccepted hreply
  · cases hplan : engine.plan request with
    | error error =>
      have hrun : run = ⟨[], .ok ⟨.error error, []⟩, engine, allowance⟩ :=
        serve_of_refuses (plan_eq_error_iff.mp hplan) allowance
      rw [hrun]
      refine ⟨fun _ _ hmem => (List.not_mem_nil hmem).elim, ?_⟩
      intro reply condition hreply htimeout
      obtain rfl : (⟨.error error, []⟩ : Reply TransferError) = reply := Except.ok.inj hreply
      obtain rfl : error = .timeout condition := Except.error.inj htimeout
      cases plan_eq_error_iff.mp hplan
    | ok moves =>
      obtain ⟨-, -, -, -, rfl⟩ := (plan_eq_ok_iff engine).mp hplan
      have hrun : run = performAll (Leg.layout request.addr request.legs) engine allowance :=
        serve_of_plan hplan allowance
      obtain ⟨-, hshown, hanswer⟩ := sleepless_performAll
        (fun error => Leg.refuse_not_mem_layout error request.addr request.legs) engine allowance
        hwait
      rw [hrun]
      refine ⟨hshown, fun reply condition hreply htimeout => ?_⟩
      rw [hanswer reply hreply] at htimeout
      cases htimeout

/-- A receive FIFO that never reports empty: the drain gives up, two accesses a place and poll. -/
theorem endless_drain_gives_up :
    let endless : Sim.ScriptedRegisters := ⟨[0x80], []⟩
    let busy : Sim.ScriptedRegisters := ⟨[0xC4, 0xC4, 0xC0], []⟩
    let engine := fun policy registers =>
      (⟨⟨15, policy⟩, true, registers, ()⟩ : Engine Sim.ScriptedRegisters Unit)
    let served := fun policy registers => serve (.read 0x48 [0, 0]) (engine policy registers) 100
    (served (.bounded 1 1) endless).outcome = .ok ⟨.error (.timeout .rxDrained), []⟩
      ∧ (accesses (served (.bounded 1 1) endless).events).length = 67
      ∧ (accesses (served (.bounded 1 1) endless).events).length
        ≤ (1 + 1) * (36 + 1 + 2) + 2 + 2 + 1
      ∧ (∃ reply, (served (.bounded 1 1) endless).outcome = .ok reply)
      ∧ ∀ part ns, .sleep part ns ∉ (served .infinite busy).events := by
  intro endless busy engine served
  have hsound : Sound Sim.ScriptedRegisters Unit := by
    refine ⟨fun _ => ⟨_, rfl⟩, fun _ => ⟨_, rfl⟩, fun leg addr last block => ⟨block, ?_⟩,
      fun _ _ _ => ⟨_, rfl⟩⟩
    generalize leg.words addr last = words
    induction words with
    | nil => rfl
    | cons word rest ih => exact ih
  have haccepted : ∀ error,
      ¬(engine (.bounded 1 1) endless).Refuses (.read 0x48 [0, 0]) error :=
    not_refuses_of_fits rfl (by decide) rfl rfl
  obtain ⟨hle, -, hreply, -⟩ := (serve_ends_in_time (engine (.bounded 1 1) endless)
    (.read 0x48 [0, 0]) 100).1 1 rfl haccepted
  have hcalm := ((serve_ends_in_time (engine .infinite busy) (.read 0x48 [0, 0]) 100).2 rfl).1
  exact ⟨by cbv, by decide +kernel, hle, hreply (by decide) hsound, hcalm⟩

end Engine

end TwoWire
