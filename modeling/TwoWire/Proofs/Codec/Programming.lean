import Mathlib
import TwoWire.Proofs.Codec.Course
import TwoWire.Proofs.Sim.Handover
import TwoWire.Proofs.Sim.RegisterFile

/-!
# The registers that bringing up the codec programs

With its PLL disabled, the codec is brought up by requests that follow one another and never wait
for what the codec says. Over an engine that reaches the codec all of them succeed, so in the end
the registers of the codec are those from before with the whole program laid over them, and nothing
else on the bus has changed (`bringUp_programs`). A register may be programmed more than once; the
last time counts.

`Config.Programs` says of a part of the sequence which requests it makes. It joins along the
sequence, since each part hands over an engine that reaches the codec still.
-/

namespace TwoWire

/-- Places of one slave are told apart by their registers. -/
theorem lookup_places (addr : UInt8) (register : UInt16) (program : List (UInt16 × UInt8)) :
    (program.map fun entry => ((addr, entry.1), entry.2)).lookup (addr, register)
      = program.lookup register := by
  induction program with
  | nil => rfl
  | cons entry rest ih =>
    have hsame : ((addr, register) == (addr, entry.1)) = (register == entry.1) := by
      simp [BEq.beq]
    rw [List.map_cons, List.lookup_cons, List.lookup_cons, hsame, ih]

namespace Codec

open Log (Logger)
open Sim (Controller Slave Suits)
open Sim.Controller (Kept)

variable {κ κ' α β : Type}

/-! ## Parts of the sequence -/

/-- Requests to one slave have stored a history and have left a ready engine. -/
structure Programmed (addr : UInt8) (history : List (Place × UInt8))
    (before after : Engine Controller κ) : Prop where
  kept : Kept history before.registers after.registers
  others : ∀ other, other ≠ addr → after.registers.slaves[other]? = before.registers.slaves[other]?
  ready : after.Ready
  limit : ∀ requests, after.sessionLimit requests ≤ before.sessionLimit requests

theorem Programmed.refl {before : Engine Controller κ} (addr : UInt8) (h : before.Ready) :
    Programmed addr [] before before :=
  ⟨⟨fun _ _ => rfl, fun hslave hplain => ⟨_, hslave, hplain⟩⟩, fun _ _ => rfl, h,
    fun _ => Nat.le_refl _⟩

theorem Programmed.trans {addr : UInt8} {history history' : List (Place × UInt8)}
    {before mid after : Engine Controller κ} (h : Programmed addr history before mid)
    (h' : Programmed addr history' mid after) :
    Programmed addr (history ++ history') before after where
  kept.register other register := by
    rw [h'.kept.register, h.kept.register, List.reverse_append, List.lookup_append, Option.or_assoc]
  kept.plain hslave hplain := by
    obtain ⟨next, hnext, hplain'⟩ := h.kept.plain hslave hplain
    exact h'.kept.plain hnext hplain'
  others other hne := (h'.others other hne).trans (h.others other hne)
  ready := h'.ready
  limit requests := Nat.le_trans (h'.limit requests) (h.limit requests)

namespace Config

/-- A ready engine with a slave on its bus that can be the codec. -/
structure Reaches (c : Config) (engine : Engine Controller κ) : Prop where
  ready : engine.Ready
  slave : ∃ slave, engine.registers.slaves[c.address]? = some slave ∧ slave.Plain 2

theorem Reaches.of_programmed {c : Config} {history : List (Place × UInt8)}
    {before after : Engine Controller κ} (h : c.Reaches before)
    (hdone : Programmed c.address history before after) : c.Reaches after := by
  obtain ⟨slave, hslave, hplain⟩ := h.slave
  exact ⟨hdone.ready, hdone.kept.plain hslave hplain⟩

/-- Within their limits the part makes some requests to the codec, all of which succeed. -/
def Programs (c : Config) (requests : List Request)
    (p : ExceptT (BringUpError TransferError) (Proc (Engine Controller κ × κ')) α) : Prop :=
  ∀ engine logger, c.Reaches engine →
    p.run.Spends False (engine, logger) (engine.sessionLimit requests) fun _ result after =>
      (∃ a, result = .ok a)
        ∧ Programmed c.address (requests.flatMap Request.stores) engine after.1

variable {c : Config} {requests requests' : List Request}

theorem programs_pure (a : α) : c.Programs []
    (pure a : ExceptT (BringUpError TransferError) (Proc (Engine Controller κ × κ')) α) :=
  fun _ _ h => Proc.spends_pure ⟨⟨a, rfl⟩, .refl c.address h.ready⟩

theorem Programs.bind {p : ExceptT (BringUpError TransferError) (Proc (Engine Controller κ × κ')) α}
    {next : α → ExceptT (BringUpError TransferError) (Proc (Engine Controller κ × κ')) β}
    (h : c.Programs requests p) (h' : ∀ a, c.Programs requests' (next a)) :
    c.Programs (requests ++ requests') (p >>= next) := by
  intro engine logger hreach
  rw [ExceptT.run_bind, Engine.sessionLimit_append, List.flatMap_append]
  refine Proc.Spends.bind _ _ ((h engine logger hreach).mono (Nat.le_refl _) ?_)
  rintro _ _ ⟨mid, logger'⟩ - ⟨⟨a, rfl⟩, hdone⟩
  refine (h' a mid logger' (hreach.of_programmed hdone)).mono (hdone.limit requests') ?_
  rintro _ result last - ⟨hok, hmore⟩
  exact ⟨hok, hdone.trans hmore⟩

/-- A step that is a request to the codec. -/
theorem programs_request [Logger κ]
    (hlogger : ∀ level pieces (logger : κ), ∃ next, Logger.record level pieces logger = .ok next)
    {request : Request} (hvalid : request.Valid) (haddr : request.addr = c.address)
    (hsuits : ∀ engine : Engine Controller κ, c.Reaches engine →
      Suits engine.registers.slaves request)
    {p : Proc (Engine Controller κ) (Except TransferError α)} {value : Reply TransferError → α}
    (hp : p = (fun reply => reply.result.map fun _ => value reply) <$> Master.serve request) :
    c.Programs [request] (onBus p :
      ExceptT (BringUpError TransferError) (Proc (Engine Controller κ × κ')) α) := by
  intro engine logger hreach
  have hserve := hreach.ready.spends_serve hvalid hlogger
  rw [run_onBus, hp]
  refine Proc.Spends.map (Proc.Spends.zoom (Proc.Spends.map (hserve.mono (Nat.le_refl _) ?_)))
  rintro _ reply after - ⟨hok, hover⟩
  refine ⟨⟨value reply, ?_⟩, ?_⟩
  · simp only [hok, Except.map, Except.mapError]
  · rw [← haddr, List.flatMap_singleton]
    exact ⟨Controller.kept_of_delivers (hsuits engine hreach) hover.delivers,
      fun other hne => hover.delivers.getElem?_of_ne hne, hover.ready, hover.sessionLimit_le⟩

theorem programs_log [Logger κ']
    (hlogger : ∀ level pieces (logger : κ'), ∃ next, Logger.record level pieces logger = .ok next)
    (level : Log.Level) (pieces : List String) :
    c.Programs [] (log level pieces :
      ExceptT (BringUpError TransferError) (Proc (Engine Controller κ × κ')) Unit) := by
  intro engine logger hreach
  refine Proc.Spends.map (Proc.Spends.zoom ((Log.spends_note fun _ => ?_).mono (Nat.le_refl _) ?_))
  · exact hlogger level pieces logger
  · intro _ _ _ _ _
    exact ⟨⟨(), rfl⟩, .refl c.address hreach.ready⟩

/-! ## The sequence -/

theorem valid_readBlock {c : Config} (haddr : c.address ≤ maxAddress) : c.readBlock.Valid :=
  ⟨haddr, rfl, rfl⟩

theorem valid_pokeMany {c : Config} (haddr : c.address ≤ maxAddress) (offset : UInt8)
    {bytes : List UInt8} (hne : bytes ≠ []) :
    (Request.writeRegisters c.address (subAddress offset) bytes).Valid := by
  refine ⟨haddr, ?_, rfl⟩
  have hfull : (Operation.write bytes).isEmpty = false := by
    simpa [Operation.isEmpty, Operation.length] using hne
  simp [Request.operations, Request.isEmpty_write_sub, hfull]

section Sequence

variable [Logger κ] (c)
  (hlogger : ∀ level pieces (logger : κ), ∃ next, Logger.record level pieces logger = .ok next)
  (haddr : c.address ≤ maxAddress)
include hlogger haddr

theorem programs_pokeMany (offset : UInt8) {bytes : List UInt8} (hne : bytes ≠ []) :
    c.Programs [.writeRegisters c.address (subAddress offset) bytes]
      (onBus (c.pokeMany offset bytes) :
        ExceptT (BringUpError TransferError) (Proc (Engine Controller κ × κ')) Unit) :=
  programs_request hlogger (valid_pokeMany haddr offset hne) rfl (fun _ h => h.slave)
    (c.pokeMany_eq offset bytes)

theorem programs_readPll : c.Programs [c.readBlock] (onBus c.readPll :
    ExceptT (BringUpError TransferError) (Proc (Engine Controller κ × κ')) Pll) :=
  programs_request hlogger (valid_readBlock haddr) rfl (fun _ h => h.slave) c.readPll_eq

theorem programs_replay (table : List InitEntry) :
    c.Programs (table.map c.pokeRequest) (c.replay table :
      ExceptT (BringUpError TransferError) (Proc (Engine Controller κ × κ')) Unit) := by
  induction table with
  | nil => exact programs_pure ()
  | cons entry rest ih =>
    have hentry : c.Programs [c.pokeRequest entry] (onBus (c.poke entry.offset entry.value) :
        ExceptT (BringUpError TransferError) (Proc (Engine Controller κ × κ')) Unit) :=
      c.programs_pokeMany hlogger haddr entry.offset (List.cons_ne_nil entry.value [])
    exact hentry.bind fun _ => ih

/-- Without the PLL, bringing up the codec makes its requests and no others. -/
theorem programs_bringUp [Logger κ']
    (hlogger' : ∀ level pieces (logger : κ'), ∃ next, Logger.record level pieces logger = .ok next)
    (hpll : c.pll.isEnabled = false) :
    c.Programs (c.start ++ c.finish) (c.bringUp :
      ExceptT (BringUpError TransferError) (Proc (Engine Controller κ × κ')) Unit) := by
  have hall : c.start ++ c.finish = [c.readBlock] ++ ([] ++ ([c.writeBlock]
      ++ ([c.clockWrite] ++ (c.table.map c.pokeRequest ++ [])))) := by
    rw [List.append_nil]
    rfl
  have hblock : c.pll.toBlock ≠ [] := by simp [Pll.toBlock]
  rw [hall]
  unfold bringUp
  refine (c.programs_readPll hlogger haddr).bind fun current => ?_
  refine (programs_log hlogger' _ _).bind fun _ => ?_
  refine (c.programs_pokeMany hlogger haddr _ hblock).bind fun _ => ?_
  rw [hpll]
  refine (c.programs_pokeMany hlogger haddr _ (List.cons_ne_nil _ [])).bind fun _ => ?_
  exact (c.programs_replay hlogger haddr c.table).bind fun _ => programs_log hlogger' _ _

end Sequence

/-- What bringing up the codec stores, register by register and in order. -/
def program (c : Config) : List (UInt16 × UInt8) :=
  [0x4002, 0x4003, 0x4004, 0x4005, 0x4006, 0x4007].zip c.pll.toBlock ++ [(0x4000, c.clockControl)]
    ++ c.table.map fun entry => (0x4000 + entry.offset.toUInt16, entry.value)

theorem stores_sequence (c : Config) : (c.start ++ c.finish).flatMap Request.stores
    = c.program.map fun entry => ((c.address, entry.1), entry.2) := by
  have htable : (c.table.map c.pokeRequest).flatMap Request.stores
      = (c.table.map fun entry => (0x4000 + entry.offset.toUInt16, entry.value)).map
        fun entry => ((c.address, entry.1), entry.2) := by
    rw [List.flatMap_map, List.map_map, List.map_eq_flatMap]
    rfl
  rw [program, List.map_append, ← htable]
  rfl

/-- The registers of the codec after its requests: the program over what was there before. -/
theorem file_of_programmed {c : Config} {before after : Engine Controller κ} {slave : Slave}
    (hslave : before.registers.slaves[c.address]? = some slave) (hplain : slave.Plain 2)
    (h : Programmed c.address ((c.start ++ c.finish).flatMap Request.stores) before after) :
    ∃ device : Slave, after.registers.slaves[c.address]? = some device ∧ device.Plain 2
      ∧ ∀ register, device.file[register]?
        = (c.program.reverse.lookup register).or slave.file[register]? := by
  obtain ⟨device, hdevice, hplain'⟩ := h.kept.plain hslave hplain
  refine ⟨device, hdevice, hplain', fun register => ?_⟩
  have hregister := h.kept.register c.address register
  rw [Controller.register, Controller.register, hdevice, hslave, stores_sequence,
    ← List.map_reverse, lookup_places] at hregister
  exact hregister

end Config

variable [Logger κ] [Logger κ']

/--
**Bringing up the codec leaves the program over the registers from before, and nothing else.**

The PLL is disabled. The engine has been brought up and waits without bound, nothing holds the bus,
and the codec is a slave with word sub-addresses and without latches. Whatever the table is, the
codec can be brought up within some allowance. Each register then holds what the program stores in
it last, or else what it held before; the other slaves are as they were. Bringing up the codec once
more changes no register.
-/
theorem bringUp_programs (c : Config) (hpll : c.pll.isEnabled = false)
    (haddr : c.address ≤ maxAddress) {engine : Engine Controller κ} (logger : κ')
    (hinit : engine.initialized = true) (hwait : engine.config.wait = .infinite)
    (hreach : engine.registers.Reachable) (hstuck : engine.registers.stuckBusy = false)
    (hidle : engine.registers.inTransaction = false) {slave : Slave}
    (hslave : engine.registers.slaves[c.address]? = some slave) (hplain : slave.Plain 2)
    (hlogger : ∀ level pieces (logger : κ), ∃ next, Logger.record level pieces logger = .ok next)
    (hlogger' : ∀ level pieces (logger : κ'), ∃ next,
      Logger.record level pieces logger = .ok next) :
    ∃ limit, ∀ n, limit ≤ n → ∀ m, limit ≤ m →
      let first := c.bringUp.run (engine, logger) n
      let second := c.bringUp.run first.state m
      let before := engine.registers.slaves
      let after := first.state.1.registers.slaves
      let again := second.state.1.registers.slaves
      first.outcome = .ok (.ok ())
        ∧ (∃ device, after[c.address]? = some device ∧ ∀ register, device.file[register]?
            = (c.program.reverse.lookup register).or slave.file[register]?)
        ∧ (∀ other, other ≠ c.address → after[other]? = before[other]?)
        ∧ second.outcome = .ok (.ok ())
        ∧ again[c.address]?.map Slave.file = after[c.address]?.map Slave.file
        ∧ ∀ other, other ≠ c.address → again[other]? = before[other]? := by
  have hready : engine.Ready := ⟨hinit, hwait, hreach.framed, hstuck, hidle⟩
  have hprograms : c.Programs (c.start ++ c.finish) (c.bringUp :
      ExceptT (BringUpError TransferError) (Proc (Engine Controller κ × κ')) Unit) :=
    c.programs_bringUp hlogger haddr hlogger' hpll
  have hdone := hprograms engine logger ⟨hready, slave, hslave, hplain⟩
  refine ⟨engine.sessionLimit (c.start ++ c.finish), fun n hn m hm => ?_⟩
  intro first second before after again
  obtain ⟨result, hfirst⟩ := hdone.exists_answer id hn
  obtain ⟨-, ⟨_, rfl⟩, hprogrammed⟩ := hdone.of_ok hfirst
  obtain ⟨device, hdevice, hplain', hfile⟩ := Config.file_of_programmed hslave hplain hprogrammed
  -- the second time starts from where the first one has left the engine
  have hagain := hprograms first.state.1 first.state.2
    ⟨hprogrammed.ready, device, hdevice, hplain'⟩
  obtain ⟨result', hsecond⟩ :=
    hagain.exists_answer id (Nat.le_trans (hprogrammed.limit (c.start ++ c.finish)) hm)
  obtain ⟨-, ⟨_, rfl⟩, hreprogrammed⟩ := hagain.of_ok hsecond
  obtain ⟨device', hdevice', -, hfile'⟩ := Config.file_of_programmed hdevice hplain' hreprogrammed
  refine ⟨hfirst, ⟨device, hdevice, hfile⟩, hprogrammed.others, hsecond, ?_, fun other hne => ?_⟩
  · have hsame : device'.file = device.file := by
      refine Std.ExtTreeMap.ext_getElem? fun register => ?_
      rw [hfile', hfile, ← Option.or_assoc, Option.or_self]
    have hlast : again[c.address]? = some device' := hdevice'
    have hmid : after[c.address]? = some device := hdevice
    rw [hlast, hmid, Option.map_some, Option.map_some, hsame]
  · exact (hreprogrammed.others other hne).trans (hprogrammed.others other hne)

/-- A table that goes over the PLL block, the clock control register and itself. -/
theorem overlapping_table_programs :
    let controller := (((Controller.ofLatency 1 2).attach 0x3B 2).setRegisters 0x3B 0x4000
      [7, 8, 9]).preload [0xEE]
    let engine : Engine Controller Unit := ⟨.standard, true, controller, ()⟩
    let c : Config := { table := [⟨0x40, 1⟩, ⟨0x02, 0x99⟩, ⟨0x00, 0x0F⟩, ⟨0x40, 2⟩] }
    ∃ limit, ∀ n, limit ≤ n →
      let first := (c.bringUp : ExceptT (BringUpError TransferError)
        (Proc (Engine Controller Unit × Unit)) Unit).run (engine, ()) n
      first.outcome = .ok (.ok ())
        ∧ first.state.1.registers.register 0x3B 0x4000 = some 0x0F
        ∧ first.state.1.registers.register 0x3B 0x4001 = some 8
        ∧ first.state.1.registers.register 0x3B 0x4002 = some 0x99
        ∧ first.state.1.registers.register 0x3B 0x4040 = some 2 := by
  intro controller engine c
  have hreach : engine.registers.Reachable :=
    .preload (.setRegisters (.attach (.powerOn 1 2) _ _) _ _ _) _
  obtain ⟨slave, hslave, hplain, hbefore⟩ : ∃ slave : Slave,
      engine.registers.slaves[c.address]? = some slave ∧ slave.Plain 2
        ∧ slave.file[(0x4001 : UInt16)]? = some 8 :=
    ⟨_, rfl, ⟨rfl, rfl⟩, rfl⟩
  have hrecord : ∀ level pieces (logger : Unit), ∃ next,
      Logger.record level pieces logger = .ok next := fun _ _ _ => ⟨(), rfl⟩
  obtain ⟨limit, hlimit⟩ := bringUp_programs c (by decide) (by decide) () rfl rfl hreach rfl rfl
    hslave hplain hrecord hrecord
  refine ⟨limit, fun n hn => ?_⟩
  obtain ⟨hok, ⟨device, hdevice, hfile⟩, -⟩ := hlimit n hn limit (Nat.le_refl limit)
  have hregister : ∀ register, Controller.register _ c.address register
      = (c.program.reverse.lookup register).or slave.file[register]? := fun register => by
    rw [Controller.register, hdevice]
    exact hfile register
  refine ⟨hok, hregister 0x4000, (hregister 0x4001).trans ?_, hregister 0x4002, hregister 0x4040⟩
  have hkept : c.program.reverse.lookup 0x4001 = none := by decide
  rw [hkept, Option.none_or, hbefore]

end Codec

end TwoWire
