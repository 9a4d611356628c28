import TwoWire.Proofs.Codec.Programming
import TwoWire.Proofs.Sim.Succession

/-!
# Bringing up a codec that answers

Over a ready engine every request to the codec is delivered, so bringing up the codec goes by
stages. `Config.Stage` holds of an engine after some requests have been made, and `Config.Does` of a
part of the sequence that makes some more and ends. `Config.Hangs` holds of a part that does not
end. Parts join along the sequence.

What a poll for lock answers is settled by the codec alone. `Config.polled` is the codec as the
polls before have left it, and `Config.locks` what the next one shows. So the wait for lock ends
with the first poll that shows lock, or else with the last one that the policy allows
(`does_awaitLock`); without a bound, it hangs if none of them shows lock (`hangs_awaitLock`).
-/

namespace TwoWire.Codec

open Event (sleeps)
open Log (Logger)
open Sim (Controller Slave Transfer)

variable {κ κ' α β : Type}

namespace Config

/-! ## Stages -/

/-- The requests have been delivered to the codec, and the engine is ready for more. -/
def Stage (c : Config) (before : Engine Controller κ) (made : List Request)
    (engine : Engine Controller κ) : Prop :=
  ∃ received, Engine.HandsOver c.address (made.flatMap Request.legs) received before engine

/-- The address phases that requests to the codec come to. -/
def booked (c : Config) (requests : List Request) : List Transfer :=
  (requests.flatMap Request.legs).map (Transfer.ofLeg c.address)

theorem booked_append (c : Config) (requests more : List Request) :
    c.booked (requests ++ more) = c.booked requests ++ c.booked more := by
  rw [booked, List.flatMap_append, List.map_append, booked, booked]

section Stage

variable {c : Config} {before engine after : Engine Controller κ} {made : List Request}

theorem stage_nil (h : before.Ready) : c.Stage before [] before := ⟨[], .refl c.address h⟩

theorem Stage.ready (h : c.Stage before made engine) : engine.Ready := by
  obtain ⟨_, hover⟩ := h
  exact hover.ready

theorem Stage.concat {request : Request} {received : List UInt8} (h : c.Stage before made engine)
    (hover : Engine.HandsOver c.address request.legs received engine after) :
    c.Stage before (made ++ [request]) after := by
  obtain ⟨earlier, hmade⟩ := h
  refine ⟨earlier ++ received, ?_⟩
  rw [List.flatMap_append, List.flatMap_singleton]
  exact hmade.append hover

/-- A request takes no longer than it would have taken at the start. -/
theorem Stage.limit_le (h : c.Stage before made engine) (request : Request) :
    engine.registers.transferLimit request.addr request.legs ≤ before.sessionLimit [request] := by
  obtain ⟨_, hover⟩ := h
  have hlimit := hover.limit request.addr request.legs
  simpa [Engine.sessionLimit] using hlimit

/-- Before the first poll, none has been made. -/
theorem Stage.not_polled {request : Request} (h : c.Stage before made engine) :
    c.Stage before (made ++ List.replicate 0 request) engine := by
  rwa [List.replicate_zero, List.append_nil]

/-- The requests stand on record, as the address phases that they come to. -/
theorem Stage.transfers (h : c.Stage before made engine) (hready : before.Ready) :
    engine.registers.transfers = before.registers.transfers ++ c.booked made := by
  have hready' := h.ready
  obtain ⟨_, hover⟩ := h
  have hbegun := hover.delivers.begun
  rwa [hready.framed.begun hready.inTransaction, hready'.framed.begun hready'.inTransaction]
    at hbegun

/-- Requests to the codec leave the other slaves alone. -/
theorem Stage.others (h : c.Stage before made engine) {other : UInt8} (hne : other ≠ c.address) :
    engine.registers.slaves[other]? = before.registers.slaves[other]? := by
  obtain ⟨_, hover⟩ := h
  exact hover.delivers.getElem?_of_ne hne

/-- The codec after the requests. -/
theorem Stage.slave (h : c.Stage before made engine) {slave : Slave}
    (hslave : before.registers.slaves[c.address]? = some slave) :
    engine.registers.slaves[c.address]? = some (slave.serve (made.flatMap Request.legs)).2 := by
  obtain ⟨_, hover⟩ := h
  rw [hover.delivers.slaves, Std.ExtTreeMap.getElem?_modify_self, hslave]
  rfl

end Stage

/-! ## Parts of the sequence -/

/-- From a stage, the part makes some requests with some sleeps between them, and ends so. -/
def Does (c : Config) (before : Engine Controller κ) (made requests : List Request)
    (naps : List Nat) (p : ExceptT (BringUpError TransferError) (Proc (Engine Controller κ × κ')) α)
    (ends : Except (BringUpError TransferError) α → Prop) : Prop :=
  ∀ engine logger, c.Stage before made engine →
    p.run.Attains (engine, logger) (before.sessionLimit requests) fun ev outcome after =>
      ends outcome ∧ c.Stage before (made ++ requests) after.1 ∧ sleeps .codec ev = naps

/-- From a stage, the part never ends; in time it makes some requests, whatever it makes then. -/
def Hangs (c : Config) (before : Engine Controller κ) (made requests : List Request)
    (p : ExceptT (BringUpError TransferError) (Proc (Engine Controller κ × κ')) α) : Prop :=
  ∀ engine logger, c.Stage before made engine →
    p.run.Strands (engine, logger) (before.sessionLimit requests) fun after =>
      ∃ mid, c.Stage before (made ++ requests) mid
        ∧ mid.registers.transfers <+: after.1.registers.transfers

/-- The part has an answer. -/
def Answers (outcome : Except (BringUpError TransferError) α) : Prop := ∃ a, outcome = .ok a

section Does

variable {c : Config} {before : Engine Controller κ} {made requests more : List Request}
  {naps later : List Nat}
  {p : ExceptT (BringUpError TransferError) (Proc (Engine Controller κ × κ')) α}
  {next : α → ExceptT (BringUpError TransferError) (Proc (Engine Controller κ × κ')) β}

theorem does_pure (a : α) : c.Does before made [] [] (pure a :
    ExceptT (BringUpError TransferError) (Proc (Engine Controller κ × κ')) α) Answers := by
  intro engine logger h
  refine Proc.attains_pure ⟨⟨a, rfl⟩, ?_, rfl⟩
  rwa [List.append_nil]

theorem does_throw (error : BringUpError TransferError) : c.Does before made [] [] (throw error :
    ExceptT (BringUpError TransferError) (Proc (Engine Controller κ × κ')) α)
    fun outcome => outcome = .error error := by
  intro engine logger h
  refine Proc.attains_pure ⟨rfl, ?_, rfl⟩
  rwa [List.append_nil]

theorem sessionLimit_replicate (before : Engine Controller κ) (count : Nat) (request : Request) :
    before.sessionLimit (List.replicate count request) = count * before.sessionLimit [request] := by
  simp [Engine.sessionLimit]

theorem sessionLimit_pos (before : Engine Controller κ) (request : Request) :
    0 < before.sessionLimit [request] := by
  simp [Engine.sessionLimit, Controller.transferLimit]

/-- A part that answers is followed by the next. -/
theorem Does.bind {ends : Except (BringUpError TransferError) β → Prop}
    (h : c.Does before made requests naps p Answers)
    (h' : ∀ a, c.Does before (made ++ requests) more later (next a) ends) :
    c.Does before made (requests ++ more) (naps ++ later) (p >>= next) ends := by
  intro engine logger hstage
  rw [ExceptT.run_bind, Engine.sessionLimit_append]
  refine Proc.Attains.bind ((h engine logger hstage).mono (Nat.le_refl _) ?_)
  rintro ev _ ⟨mid, logger'⟩ ⟨⟨a, rfl⟩, hmid, rfl⟩
  refine (h' a mid logger' hmid).mono (Nat.le_refl _) ?_
  rintro ev' outcome after ⟨hends, hlast, rfl⟩
  rw [← List.append_assoc]
  exact ⟨hends, hlast, Event.sleeps_append ..⟩

theorem Does.imp {ends ends' : Except (BringUpError TransferError) α → Prop}
    (h : c.Does before made requests naps p ends) (himp : ∀ outcome, ends outcome → ends' outcome) :
    c.Does before made requests naps p ends' := by
  intro engine logger hstage
  refine (h engine logger hstage).mono (Nat.le_refl _) fun ev outcome after hdone => ?_
  exact ⟨himp outcome hdone.1, hdone.2⟩

/-- A part that fails is the last one. -/
theorem Does.bind_of_error {error : BringUpError TransferError}
    (h : c.Does before made requests naps p fun outcome => outcome = .error error) :
    c.Does before made requests naps (p >>= next) fun outcome => outcome = .error error := by
  intro engine logger hstage
  have hlimit : before.sessionLimit requests = before.sessionLimit requests + 0 := rfl
  rw [ExceptT.run_bind, hlimit]
  refine Proc.Attains.bind ((h engine logger hstage).mono (Nat.le_refl _) ?_)
  rintro ev _ after ⟨rfl, hlast, hnaps⟩
  refine Proc.attains_pure ⟨rfl, hlast, ?_⟩
  rwa [List.append_nil]

/-- A part that answers may be followed by one that hangs. -/
theorem Does.bind_hangs (h : c.Does before made requests naps p Answers)
    (h' : ∀ a, c.Hangs before (made ++ requests) more (next a)) :
    c.Hangs before made (requests ++ more) (p >>= next) := by
  intro engine logger hstage
  rw [ExceptT.run_bind, Engine.sessionLimit_append]
  refine Proc.Attains.bind_strands ((h engine logger hstage).mono (Nat.le_refl _) ?_)
  rintro ev _ ⟨mid, logger'⟩ ⟨⟨a, rfl⟩, hmid, -⟩
  rw [← List.append_assoc]
  exact h' a mid logger' hmid

/-- A part that hangs is the last one. -/
theorem Hangs.bind (h : c.Hangs before made requests p) :
    c.Hangs before made requests (p >>= next) := by
  intro engine logger hstage
  rw [ExceptT.run_bind]
  exact (h engine logger hstage).bind

end Does

section Steps

variable {c : Config} {before : Engine Controller κ} {made : List Request}

theorem does_log [Logger κ']
    (hlogger : ∀ level pieces (logger : κ'), ∃ next, Logger.record level pieces logger = .ok next)
    (level : Log.Level) (pieces : List String) :
    c.Does before made [] [] (log level pieces :
      ExceptT (BringUpError TransferError) (Proc (Engine Controller κ × κ')) Unit) Answers := by
  intro engine logger h
  refine Proc.Attains.map (Proc.Attains.zoom
    ((Log.attains_note (hlogger level pieces logger)).mono (Nat.le_refl _) ?_))
  rintro _ _ _ rfl
  refine ⟨⟨(), rfl⟩, ?_, rfl⟩
  rwa [List.append_nil]

/-- A record, and what follows it. -/
theorem does_log_bind [Logger κ']
    (hlogger : ∀ level pieces (logger : κ'), ∃ next, Logger.record level pieces logger = .ok next)
    (level : Log.Level) (pieces : List String) {requests : List Request} {naps : List Nat}
    {next : Unit → ExceptT (BringUpError TransferError) (Proc (Engine Controller κ × κ')) α}
    {ends : Except (BringUpError TransferError) α → Prop}
    (h : c.Does before made requests naps (next ()) ends) :
    c.Does before made requests naps (log level pieces >>= next) ends := by
  have hnext : c.Does before (made ++ []) requests naps (next ()) ends := by
    rwa [List.append_nil]
  exact (does_log hlogger level pieces).bind fun _ => hnext

variable [Logger κ]
  (hlogger : ∀ level pieces (logger : κ), ∃ next, Logger.record level pieces logger = .ok next)
include hlogger

/-- A request to the codec, made over the engine alone. -/
theorem Stage.attains_request {engine : Engine Controller κ} (h : c.Stage before made engine)
    {request : Request} (hvalid : request.Valid) (haddr : request.addr = c.address)
    {p : Proc (Engine Controller κ) (Except TransferError α)} {value : Reply TransferError → α}
    (hp : p = (fun reply => reply.result.map fun _ => value reply) <$> Master.serve request) :
    p.Attains engine (before.sessionLimit [request]) fun ev answer after =>
      (∃ reply : Reply TransferError, answer = .ok (value reply)
        ∧ (request.fill reply.received).flatten
          = Slave.answer engine.registers.slaves[c.address]? request.legs)
      ∧ c.Stage before (made ++ [request]) after ∧ sleeps .codec ev = [] := by
  rw [hp]
  refine Proc.Attains.map ((h.ready.attains_serve hvalid hlogger).mono (h.limit_le request) ?_)
  rintro ev reply after ⟨⟨hok, hover⟩, hquiet⟩
  have hfilled := hover.delivers.flatten_fill
  rw [haddr] at hover hfilled
  refine ⟨⟨reply, ?_, hfilled⟩, h.concat hover, hquiet .codec⟩
  rw [hok]
  rfl

/-- A step that is a request to the codec. -/
theorem does_request {request : Request} (hvalid : request.Valid)
    (haddr : request.addr = c.address) {p : Proc (Engine Controller κ) (Except TransferError α)}
    {value : Reply TransferError → α}
    (hp : p = (fun reply => reply.result.map fun _ => value reply) <$> Master.serve request) :
    c.Does before made [request] [] (onBus p :
      ExceptT (BringUpError TransferError) (Proc (Engine Controller κ × κ')) α) Answers := by
  intro engine logger h
  rw [run_onBus]
  refine Proc.Attains.map (Proc.Attains.zoom
    ((h.attains_request hlogger hvalid haddr hp).mono (Nat.le_refl _) ?_))
  rintro ev _ after ⟨⟨reply, rfl, -⟩, hlast, hnaps⟩
  exact ⟨⟨value reply, rfl⟩, hlast, hnaps⟩

end Steps

/-! ## The steps -/

/-- What the next poll shows of the codec. -/
def locks (c : Config) (slave : Slave) : Bool :=
  (Pll.ofBlock (slave.serve c.readBlock.legs).1).isLocked

/-- The codec after its block was read and written, and after some polls. -/
def polled (c : Config) (slave : Slave) (count : Nat) : Slave :=
  (slave.serve ((c.start ++ List.replicate count c.readBlock).flatMap Request.legs)).2

/-- The PLL block is read and written, with a record in between. -/
def setPll {μ ε : Type} [Master μ ε] [Logger κ] (c : Config) :
    ExceptT (BringUpError ε) (Proc (μ × κ)) Unit := do
  let current ← onBus c.readPll
  log .debug ["adau1761: pll block at reset ", Hex.listed current.toBlock]
  onBus (c.pokeMany Register.pll.offset c.pll.toBlock)

/-- One poll for lock: whether the PLL block that it reads shows lock. -/
def pollLock {μ ε : Type} [Master μ ε] (c : Config) : Proc μ (Except ε Bool) := do
  return (← c.readPll).map (·.isLocked)

/-- With the PLL enabled, the wait for lock stands between the PLL block and the rest. -/
theorem bringUp_of_enabled {μ ε : Type} [Master μ ε] [Logger κ] {c : Config}
    (hpll : c.pll.isEnabled = true) :
    (c.bringUp : ExceptT (BringUpError ε) (Proc (μ × κ)) Unit) = c.setPll >>= fun _ =>
      c.awaitLock >>= fun _ => (do
        onBus (c.poke Register.clockControl.offset c.clockControl)
        c.replay c.table
        log .info ["adau1761: ", toString c.table.length, " registers initialised at ",
          Hex.marked 2 c.address.toNat]) := by
  unfold bringUp setPll
  simp only [hpll, ↓reduceIte, bind_assoc]

section Sequence

variable [Logger κ] {c : Config} {before : Engine Controller κ} {made : List Request}
  (hlogger : ∀ level pieces (logger : κ), ∃ next, Logger.record level pieces logger = .ok next)
  (haddr : c.address ≤ maxAddress)
include hlogger haddr

theorem does_pokeMany (offset : UInt8) {bytes : List UInt8} (hne : bytes ≠ []) :
    c.Does before made [.writeRegisters c.address (subAddress offset) bytes] []
      (onBus (c.pokeMany offset bytes) :
        ExceptT (BringUpError TransferError) (Proc (Engine Controller κ × κ')) Unit) Answers :=
  does_request hlogger (valid_pokeMany haddr offset hne) rfl (c.pokeMany_eq offset bytes)

theorem does_replay (table : List InitEntry) :
    c.Does before made (table.map c.pokeRequest) [] (c.replay table :
      ExceptT (BringUpError TransferError) (Proc (Engine Controller κ × κ')) Unit) Answers := by
  induction table generalizing made with
  | nil => exact does_pure ()
  | cons entry rest ih =>
    have hentry : c.Does before made [c.pokeRequest entry] []
        (onBus (c.poke entry.offset entry.value) :
          ExceptT (BringUpError TransferError) (Proc (Engine Controller κ × κ')) Unit) Answers :=
      does_pokeMany hlogger haddr entry.offset (List.cons_ne_nil entry.value [])
    exact hentry.bind fun _ => ih

/-- The clock is enabled and the table written, and a record follows. -/
theorem does_finish [Logger κ']
    (hlogger' : ∀ level pieces (logger : κ'), ∃ next, Logger.record level pieces logger = .ok next)
    (level : Log.Level) (pieces : List String) :
    c.Does before made c.finish [] (do
      onBus (c.poke Register.clockControl.offset c.clockControl)
      c.replay c.table
      log level pieces :
        ExceptT (BringUpError TransferError) (Proc (Engine Controller κ × κ')) Unit) Answers := by
  have hall : c.finish = [c.clockWrite] ++ (c.table.map c.pokeRequest ++ []) := by
    rw [List.append_nil]
    rfl
  rw [hall]
  refine (does_pokeMany hlogger haddr _ (List.cons_ne_nil _ [])).bind fun _ => ?_
  exact (does_replay hlogger haddr c.table).bind fun _ => does_log hlogger' level pieces

omit hlogger haddr in
/-- No poll takes an address phase back. -/
theorem always_pollLock : Proc.Always (fun (engine : Engine Controller κ) _ after =>
    engine.registers.transfers <+: after.registers.transfers) c.pollLock := by
  unfold pollLock
  rw [bind_pure_comp, c.readPll_eq]
  exact Proc.Always.map (Proc.Always.map fun engine n => Engine.transfers_isPrefix _ engine n)

variable {slave : Slave} (hslave : before.registers.slaves[c.address]? = some slave)
include hslave

theorem attains_pollLock (count : Nat) (engine : Engine Controller κ)
    (h : c.Stage before (c.start ++ List.replicate count c.readBlock) engine) :
    c.pollLock.Attains engine (before.sessionLimit [c.readBlock]) fun ev settled after =>
      settled = .ok (c.locks (c.polled slave count)) ∧ sleeps .codec ev = []
        ∧ c.Stage before (c.start ++ List.replicate (count + 1) c.readBlock) after := by
  have hp : (c.readPll : Proc (Engine Controller κ) _) = _ := c.readPll_eq
  rw [List.replicate_succ', ← List.append_assoc]
  unfold pollLock
  rw [bind_pure_comp]
  refine Proc.Attains.map ((h.attains_request hlogger (valid_readBlock haddr) rfl hp).mono
    (Nat.le_refl _) ?_)
  rintro ev _ after ⟨⟨reply, rfl, hreply⟩, hlast, hnaps⟩
  refine ⟨?_, hnaps, hlast⟩
  rw [hreply, h.slave hslave]
  rfl

variable [Logger κ']
  (hlogger' : ∀ level pieces (logger : κ'), ∃ next, Logger.record level pieces logger = .ok next)
include hlogger'

/-- The wait for lock ends with the first poll that shows it, or with the last one allowed. -/
theorem does_awaitLock {m : Nat} (hmisses : ∀ i < m, c.locks (c.polled slave i) = false)
    (hallowed : ∀ most, c.lockWait.maxPolls = some most → m ≤ most)
    (hend : c.locks (c.polled slave m) = true ∨ c.lockWait.maxPolls = some m) :
    c.Does before c.start (List.replicate (m + 1) c.readBlock)
      (List.replicate m (sleeps .codec (pauseEvents .codec c.lockWait))).flatten
      (c.awaitLock : ExceptT (BringUpError TransferError) (Proc (Engine Controller κ × κ')) Unit)
      fun outcome => outcome
        = if c.locks (c.polled slave m) then .ok () else .error .lockTimeout := by
  unfold awaitLock
  refine does_log_bind hlogger' _ _ ?_
  intro engine logger hstage
  have hpolls := attains_pollUntil (attains_pollLock hlogger haddr hslave) hstage.not_polled
    (sessionLimit_pos before c.readBlock) hmisses hallowed hend
  have htotal : before.sessionLimit (List.replicate (m + 1) c.readBlock)
      = (m + 1) * before.sessionLimit [c.readBlock] + 0 := sessionLimit_replicate before _ _
  rw [ExceptT.run_bind, run_onBus, htotal]
  refine Proc.Attains.bind (Proc.Attains.map (Proc.Attains.zoom (hpolls.mono (Nat.le_refl _) ?_)))
  rintro ev _ after ⟨rfl, hnaps, hlast⟩
  cases hlocks : c.locks (c.polled slave m) with
  | true =>
    refine Proc.attains_pure ⟨rfl, hlast, ?_⟩
    rwa [List.append_nil]
  | false =>
    have hexpired : c.Does before (c.start ++ List.replicate (m + 1) c.readBlock) [] [] (do
        log .error ["adau1761: pll lock timeout"]
        throw .lockTimeout :
          ExceptT (BringUpError TransferError) (Proc (Engine Controller κ × κ')) Unit)
        fun outcome => outcome = .error .lockTimeout :=
      does_log_bind hlogger' _ _ (does_throw .lockTimeout)
    refine (hexpired after logger hlast).mono (Nat.le_refl _) ?_
    rintro ev' _ last ⟨rfl, hstage', hnone⟩
    rw [List.append_nil] at hstage'
    refine ⟨rfl, hstage', ?_⟩
    rw [Event.sleeps_append, hnaps, hnone, List.append_nil]

/-- Without a bound, the wait for lock hangs if no poll ever shows lock. -/
theorem hangs_awaitLock (hwait : c.lockWait = .infinite)
    (hmisses : ∀ i, c.locks (c.polled slave i) = false) (m : Nat) :
    c.Hangs before c.start (List.replicate (m + 1) c.readBlock) (c.awaitLock :
      ExceptT (BringUpError TransferError) (Proc (Engine Controller κ × κ')) Unit) := by
  have hchained : Proc.Chained fun (engine : Engine Controller κ) _ (after : Engine Controller κ) =>
      engine.registers.transfers <+: after.registers.transfers :=
    ⟨fun _ => List.prefix_rfl, fun h h' => h.trans h'⟩
  unfold awaitLock
  show c.Hangs before c.start ([] ++ List.replicate (m + 1) c.readBlock) _
  refine (does_log hlogger' _ _).bind_hangs fun _ engine logger hstage => ?_
  rw [List.append_nil] at hstage ⊢
  have hpolls := strands_pollUntil (attains_pollLock hlogger haddr hslave) hchained always_pollLock
    hmisses (m := m) hstage.not_polled (sessionLimit_pos before c.readBlock)
  rw [ExceptT.run_bind, run_onBus, hwait, sessionLimit_replicate]
  refine Proc.Strands.bind (Proc.Strands.map (Proc.Strands.zoom
    (hpolls.mono (Nat.le_refl _) ?_)))
  rintro after ⟨mid, -, hmid, hlater⟩
  exact ⟨mid, hmid, hlater⟩

/-! ## The sequence with the PLL enabled -/

omit hslave in
theorem does_setPll : c.Does before [] c.start [] (c.setPll :
    ExceptT (BringUpError TransferError) (Proc (Engine Controller κ × κ')) Unit) Answers := by
  have hblock : c.pll.toBlock ≠ [] := by simp [Pll.toBlock]
  unfold setPll
  refine (does_request hlogger (valid_readBlock haddr) rfl c.readPll_eq).bind fun current => ?_
  exact does_log_bind hlogger' _ _ (does_pokeMany hlogger haddr _ hblock)

variable (hpll : c.pll.isEnabled = true)
include hpll

/-- A codec that shows lock in time is brought up, and the rest comes after the last poll. -/
theorem does_bringUp {m : Nat} (hmisses : ∀ i < m, c.locks (c.polled slave i) = false)
    (hallowed : ∀ most, c.lockWait.maxPolls = some most → m ≤ most)
    (hlocks : c.locks (c.polled slave m) = true) :
    c.Does before [] (c.sequence (m + 1))
      (List.replicate m (sleeps .codec (pauseEvents .codec c.lockWait))).flatten (c.bringUp :
        ExceptT (BringUpError TransferError) (Proc (Engine Controller κ × κ')) Unit) Answers := by
  have hwaited : c.Does before c.start (List.replicate (m + 1) c.readBlock)
      (List.replicate m (sleeps .codec (pauseEvents .codec c.lockWait))).flatten (c.awaitLock :
        ExceptT (BringUpError TransferError) (Proc (Engine Controller κ × κ')) Unit) Answers := by
    refine (does_awaitLock hlogger haddr hslave hlogger' hmisses hallowed (.inl hlocks)).imp ?_
    rintro _ rfl
    exact ⟨(), if_pos hlocks⟩
  rw [bringUp_of_enabled hpll, sequence, List.append_assoc,
    ← List.append_nil (List.replicate m _).flatten]
  refine (does_setPll hlogger haddr hlogger').bind fun _ => ?_
  exact hwaited.bind fun _ => does_finish hlogger haddr hlogger' _ _

/-- A bounded wait for lock that no poll ends is the last part. -/
theorem expires_bringUp {m : Nat} (hmisses : ∀ i ≤ m, c.locks (c.polled slave i) = false)
    (hmost : c.lockWait.maxPolls = some m) :
    c.Does before [] (c.start ++ List.replicate (m + 1) c.readBlock)
      (List.replicate m (sleeps .codec (pauseEvents .codec c.lockWait))).flatten (c.bringUp :
        ExceptT (BringUpError TransferError) (Proc (Engine Controller κ × κ')) Unit)
      fun outcome => outcome = .error .lockTimeout := by
  have hexpired := (does_awaitLock hlogger haddr hslave hlogger' (m := m)
    (fun i hi => hmisses i (Nat.le_of_lt hi))
    (fun most h => Nat.le_of_eq (Option.some.inj (hmost.symm.trans h))) (.inr hmost)).imp
      fun outcome hout => hout.trans (if_neg (by simp [hmisses m (Nat.le_refl m)]))
  rw [bringUp_of_enabled hpll]
  exact (does_setPll hlogger haddr hlogger').bind fun _ => hexpired.bind_of_error

/-- A wait for lock without bound that no poll ends goes on and on. -/
theorem hangs_bringUp (hwait : c.lockWait = .infinite)
    (hmisses : ∀ i, c.locks (c.polled slave i) = false) (m : Nat) :
    c.Hangs before [] (c.start ++ List.replicate (m + 1) c.readBlock) (c.bringUp :
      ExceptT (BringUpError TransferError) (Proc (Engine Controller κ × κ')) Unit) := by
  rw [bringUp_of_enabled hpll]
  exact (does_setPll hlogger haddr hlogger').bind_hangs fun _ =>
    (hangs_awaitLock hlogger haddr hslave hlogger' hwait hmisses m).bind

end Sequence

end Config

end TwoWire.Codec
