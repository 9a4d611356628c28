import TwoWire.Proofs.Codec.Stages

/-!
# Waiting for the lock of a codec that latches it

A codec whose latch sets the lock bit on a certain read of the lock register. Bringing it up reads
the PLL block once before it writes it, and then once for each poll, so the reset read and the write
take part in what the polls see: the write of the block overwrites what a latch has set at the reset
read (`setAll_blockShown`). What remains is a codec with the written block and a latch with some
reads left (`Latching.polled`), which shows lock at one poll or at none (`Latching.locks_polled`).

From there on the parts of the sequence say how bringing up the codec ends: it is `Locked` by the
poll at which the latch fires, it has `Expired`, or it never ends (`bringUp_awaits_latch`).
-/

namespace TwoWire.Codec

open Event (sleeps)
open Log (Logger)
open Sim (Controller Latch RegisterFile Slave Transfer)

variable {κ κ' : Type}

/-! ## A codec with a latch -/

/-- The register with the lock bit, the last one of the PLL block. -/
def lockRegister : UInt16 := 0x4007

/-- The registers of the PLL block. -/
def blockRegisters : List UInt16 := [0x4002, 0x4003, 0x4004, 0x4005, 0x4006, lockRegister]

/-- A codec with these registers, and with a latch of the lock register and no other. -/
structure Latching (mask : UInt8) (left : Nat) (file : RegisterFile) (slave : Slave) : Prop where
  width : slave.width = 2
  latches : slave.latches = [⟨lockRegister, mask, left⟩]
  file : slave.file = file

/-- The registers at a read of the PLL block; it may be the one that the latch waits for. -/
def blockShown (mask : UInt8) (left : Nat) (file : RegisterFile) : RegisterFile :=
  if left = 1 then file.set lockRegister (file.value lockRegister ||| mask) else file

section Latching

variable {c : Config} {mask : UInt8} {left : Nat} {file : RegisterFile} {slave : Slave}

theorem fire_lockRegister (mask : UInt8) (left : Nat) (file : RegisterFile) :
    Slave.fire [⟨lockRegister, mask, left⟩] file lockRegister = blockShown mask left file := by
  unfold Slave.fire blockShown
  by_cases hleft : left = 1
  · rw [if_pos hleft, hleft]
    rfl
  · have hnone : Latch.fires ⟨lockRegister, mask, left⟩ lockRegister = false := by
      simp [Latch.fires, hleft]
    rw [if_neg hleft, List.filter_cons, hnone]
    rfl

theorem fire_other (mask : UInt8) (left : Nat) (file : RegisterFile) {register : UInt16}
    (h : lockRegister ≠ register) :
    Slave.fire [⟨lockRegister, mask, left⟩] file register = file := by
  have hnone : Latch.fires ⟨lockRegister, mask, left⟩ register = false := by
    simp [Latch.fires, h]
  rw [Slave.fire, List.filter_cons, hnone]
  rfl

/-- Of the registers in the block, only the last one fires the latch. -/
theorem foldl_fire_block (mask : UInt8) (left : Nat) (file : RegisterFile) :
    blockRegisters.foldl (Slave.fire [⟨lockRegister, mask, left⟩]) file
      = blockShown mask left file := by
  have hothers : ∀ registers : List UInt16, lockRegister ∉ registers →
      registers.foldl (Slave.fire [⟨lockRegister, mask, left⟩]) file = file := by
    intro registers
    induction registers with
    | nil => exact fun _ => rfl
    | cons register rest ih =>
      intro hmem
      obtain ⟨hne, hrest⟩ := List.ne_and_not_mem_of_not_mem_cons hmem
      rw [List.foldl_cons, fire_other mask left file hne, ih hrest]
  have hsplit : blockRegisters = [0x4002, 0x4003, 0x4004, 0x4005, 0x4006] ++ [lockRegister] := rfl
  rw [hsplit, List.foldl_append, hothers _ (by decide)]
  exact fire_lockRegister mask left file

/-- A read of the PLL block shows its registers, and the latch waits for one read less. -/
theorem Latching.serve_readBlock (h : Latching mask left file slave) :
    (slave.serve c.readBlock.legs).1 = blockRegisters.map (blockShown mask left file).value
      ∧ Latching mask (left - 1) (blockShown mask left file) (slave.serve c.readBlock.legs).2 := by
  have hset : slave.writeRun (subAddress Register.pll.offset).bytes
      = { slave with pointer := 0x4002 } := Slave.writeRun_bytes _ h.width
  have hlegs : c.readBlock.legs = [.write (subAddress Register.pll.offset).bytes, .read 6] :=
    Request.legs_readRegisters ..
  have hfire : blockRegisters.foldl (Slave.fire slave.latches) slave.file
      = blockShown mask left file := by
    rw [h.latches, h.file, foldl_fire_block]
  have hcount : slave.latches.map (·.countOver blockRegisters)
      = [⟨lockRegister, mask, left - 1⟩] := by
    rw [h.latches]
    rfl
  have hread : ({ slave with pointer := 0x4002 } : Slave).readRun 6
      = (blockRegisters.map (blockShown mask left file).value,
        { slave with
          file := blockShown mask left file
          pointer := 0x4008
          latches := [⟨lockRegister, mask, left - 1⟩] }) := by
    rw [← hfire, ← hcount]
    rfl
  rw [hlegs]
  simp only [Slave.serve, Slave.carry, hset, hread, List.nil_append, List.append_nil]
  exact ⟨trivial, h.width, rfl, rfl⟩

/-- A write of the PLL block stores it, and the latch waits on. -/
theorem Latching.serve_writeBlock (h : Latching mask left file slave) :
    Latching mask left (file.setAll 0x4002 c.pll.toBlock) (slave.serve c.writeBlock.legs).2 := by
  have hlegs : c.writeBlock.legs
      = [.write ((subAddress Register.pll.offset).bytes ++ c.pll.toBlock)] :=
    Request.legs_writeRegisters ..
  have hwrite := Slave.writeRun_of_width (subAddress Register.pll.offset) h.width c.pll.toBlock
  rw [hlegs]
  simp only [Slave.serve, Slave.carry, hwrite]
  exact ⟨h.width, h.latches, by rw [h.file]; rfl⟩

/-- A write of the whole block leaves nothing of what a read before it has set. -/
theorem setAll_blockShown (mask : UInt8) (left : Nat) (file : RegisterFile) (pll : Pll) :
    (blockShown mask left file).setAll 0x4002 pll.toBlock = file.setAll 0x4002 pll.toBlock := by
  refine Std.ExtTreeMap.ext_getElem? fun register => ?_
  rw [RegisterFile.getElem?_setAll _ 0, RegisterFile.getElem?_setAll _ 0]
  unfold blockShown
  split
  · by_cases hregister : register = lockRegister
    · subst hregister
      rfl
    · rw [RegisterFile.set_other _ _ hregister]
  · rfl

/-- The block has been read and written. -/
theorem Latching.polled_zero (h : Latching mask left file slave) :
    Latching mask (left - 1) (file.setAll 0x4002 c.pll.toBlock) (c.polled slave 0) := by
  obtain ⟨-, hread⟩ := h.serve_readBlock (c := c)
  have hwritten := hread.serve_writeBlock (c := c)
  have hlegs : (c.start ++ List.replicate 0 c.readBlock).flatMap Request.legs
      = c.readBlock.legs ++ c.writeBlock.legs := rfl
  rw [setAll_blockShown] at hwritten
  rwa [Config.polled, hlegs, Slave.serve_append]

theorem polled_succ (c : Config) (slave : Slave) (count : Nat) :
    c.polled slave (count + 1) = ((c.polled slave count).serve c.readBlock.legs).2 := by
  rw [Config.polled, List.replicate_succ', ← List.append_assoc, List.flatMap_append,
    Slave.serve_append, List.flatMap_singleton]
  rfl

variable {j : Nat} (h : Latching mask j file slave)
include h

/-- Until the latch has fired after the block was written, each poll leaves it one read less. -/
theorem Latching.polled {count : Nat} (hwaits : j < 2 ∨ count + 2 ≤ j) :
    Latching mask (j - 1 - count) (file.setAll 0x4002 c.pll.toBlock) (c.polled slave count) := by
  induction count with
  | zero => exact h.polled_zero
  | succ count ih =>
    obtain ⟨-, hread⟩ := (ih (by omega)).serve_readBlock (c := c)
    have hopen : j - 1 - count ≠ 1 := by omega
    have hleft : j - 1 - count - 1 = j - 1 - (count + 1) := by omega
    rw [blockShown, if_neg hopen, hleft] at hread
    rwa [polled_succ]

variable (hmask : mask &&& Pll.lockBit ≠ 0) (hunlocked : c.pll.isLocked = false)
include hmask hunlocked

/-- **A poll shows lock if the latch fires at it.** The reset read and the polls before it count. -/
theorem Latching.locks_polled {count : Nat} (hwaits : j < 2 ∨ count + 2 ≤ j) :
    c.locks (c.polled slave count) = decide (j = count + 2) := by
  obtain ⟨hshown, -⟩ := (h.polled (c := c) hwaits).serve_readBlock (c := c)
  have hlocks : c.locks (c.polled slave count)
      = ((blockShown mask (j - 1 - count) (file.setAll 0x4002 c.pll.toBlock)).value lockRegister
        &&& Pll.lockBit != 0) := by
    rw [Config.locks, hshown]
    rfl
  have hcontrol : (file.setAll 0x4002 c.pll.toBlock).value lockRegister = c.pll.control := by
    rw [RegisterFile.value, RegisterFile.getElem?_setAll _ 0]
    rfl
  have hclear : c.pll.control &&& Pll.lockBit = 0 := by simpa [Pll.isLocked] using hunlocked
  rw [hlocks]
  by_cases hfires : j = count + 2
  · have hleft : j - 1 - count = 1 := by omega
    rw [blockShown, if_pos hleft, RegisterFile.value, RegisterFile.set_same, hcontrol]
    have hboth : (c.pll.control ||| mask) &&& Pll.lockBit
        = c.pll.control &&& Pll.lockBit ||| mask &&& Pll.lockBit := by
      refine UInt8.toNat_inj.mp ?_
      simp only [UInt8.toNat_and, UInt8.toNat_or, Nat.and_or_distrib_right]
    simp [hboth, hclear, hmask, hfires]
  · have hleft : j - 1 - count ≠ 1 := by omega
    rw [blockShown, if_neg hleft, hcontrol, hclear, decide_eq_false hfires]
    rfl

end Latching

namespace Config

/-! ## Reads of the PLL block -/

/-- The address phase in which the codec sends its PLL block. -/
def blockRead (c : Config) : Transfer := .read c.address Pll.blockLength

theorem count_booked_readBlock (c : Config) : (c.booked [c.readBlock]).count c.blockRead = 1 := by
  have hphases : c.booked [c.readBlock] = [.write c.address [0x40, 0x02], c.blockRead] := rfl
  simp [hphases, blockRead]

/-- Until the clock is enabled, there is one more read of the PLL block than there are polls. -/
theorem count_booked_start (c : Config) (polls : Nat) :
    (c.booked (c.start ++ List.replicate polls c.readBlock)).count c.blockRead = polls + 1 := by
  induction polls with
  | zero =>
    have hphases : c.booked (c.start ++ List.replicate 0 c.readBlock)
        = [.write c.address [0x40, 0x02], c.blockRead,
          .write c.address ([0x40, 0x02] ++ c.pll.toBlock)] := rfl
    rw [hphases]
    simp [blockRead]
  | succ polls ih =>
    rw [List.replicate_succ', ← List.append_assoc, booked_append, List.count_append, ih,
      count_booked_readBlock]

theorem booked_pokes (c : Config) (table : List InitEntry) :
    c.booked (table.map c.pokeRequest) = table.map fun entry =>
      .write c.address ((subAddress entry.offset).bytes ++ [entry.value]) := by
  induction table with
  | nil => rfl
  | cons entry rest ih =>
    rw [List.map_cons, List.map_cons, ← ih]
    rfl

/-- Nothing is read once the clock is enabled. -/
theorem blockRead_not_mem_booked_pokes (c : Config) (table : List InitEntry) :
    c.blockRead ∉ c.booked (table.map c.pokeRequest) := by
  rw [booked_pokes]
  simp [blockRead]

theorem booked_finish (c : Config) : c.booked c.finish
    = .write c.address [0x40, 0x00, c.clockControl] :: c.booked (c.table.map c.pokeRequest) := by
  have hfinish : c.finish = (⟨Register.clockControl.offset, c.clockControl⟩ :: c.table).map
    c.pokeRequest := rfl
  have hclock : (subAddress Register.clockControl.offset).bytes = [0x40, 0x00] := by decide
  rw [hfinish, booked_pokes, booked_pokes, List.map_cons, hclock]
  rfl

/-! ## An address that the engine refuses -/

/-- With an address of more than seven bits, bringing up the codec ends before it has begun. -/
theorem bringUp_refused {β : Type} [RegisterBlock β] [Logger κ] [Logger κ'] {c : Config}
    {engine : Engine β κ} (hinit : engine.initialized = true) (haddr : maxAddress < c.address)
    (logger : κ') (n : Nat) :
    c.bringUp.run (engine, logger) n
      = ⟨[], .ok (.error (.bus .invalidAddress)), (engine, logger), n⟩ := by
  have hrefuses : engine.Refuses c.readBlock .invalidAddress := .invalidAddress hinit haddr
  have hserve : (Master.serve c.readBlock : Proc (Engine β κ) _) engine n
      = ⟨[], .ok ⟨.error .invalidAddress, []⟩, engine, n⟩ :=
    Engine.serve_of_refuses hrefuses n
  have hread : (Except.mapError BringUpError.bus <$> (c.readPll : Proc (Engine β κ) _).onFst)
      (engine, logger) n
      = ⟨[], .ok (.error (.bus .invalidAddress)), (engine, logger), n⟩ := by
    rw [c.readPll_eq]
    simp only [Proc.map_apply, Proc.onFst, Proc.zoom, hserve]
    rfl
  unfold bringUp
  rw [ExceptT.run_bind, run_onBus, Proc.bind_apply, hread]
  rfl

/-! ## Bringing up the codec -/

/-- The PLL block has been read so many times, and the last read has shown lock. -/
structure Locked (c : Config) (before : Controller) (reads : Nat)
    (run : Exec (Engine Controller κ × κ') (Except (BringUpError TransferError) Unit)) : Prop where
  outcome : run.outcome = .ok (.ok ())
  transfers : ∃ waiting rest, run.state.1.registers.transfers
      = before.transfers ++ waiting ++ .write c.address [0x40, 0x00, c.clockControl] :: rest
    ∧ waiting = c.booked (c.start ++ List.replicate (reads - 1) c.readBlock)
    ∧ rest = c.booked (c.table.map c.pokeRequest)
    ∧ waiting.count c.blockRead = reads ∧ c.blockRead ∉ rest
  pauses : sleeps .codec run.events
    = (List.replicate (reads - 2) (sleeps .codec (pauseEvents .codec c.lockWait))).flatten

/-- The PLL block has been read so many times without showing lock, and no more were allowed. -/
structure Expired (c : Config) (before : Controller) (reads : Nat)
    (run : Exec (Engine Controller κ × κ') (Except (BringUpError TransferError) Unit)) : Prop where
  outcome : run.outcome = .ok (.error .lockTimeout)
  transfers : ∃ waiting, run.state.1.registers.transfers = before.transfers ++ waiting
    ∧ waiting = c.booked (c.start ++ List.replicate (reads - 1) c.readBlock)
    ∧ waiting.count c.blockRead = reads
  changed : ∀ addr register,
    run.state.1.registers.register addr register ≠ before.register addr register →
      addr = c.address ∧ register ∈ blockRegisters

section Latching

variable [Logger κ] [Logger κ'] {c : Config} {engine : Engine Controller κ} {slave : Slave}
  {mask : UInt8} {j : Nat}
  (hslave : engine.registers.slaves[c.address]? = some slave)
  (hlatch : Latching mask j slave.file slave)
include hslave hlatch

omit [Logger κ] in
/-- Until lock, the codec has its PLL block written, and all else is as it was. -/
theorem Stage.register_of_ne {polls : Nat} {after : Engine Controller κ}
    (h : c.Stage engine (c.start ++ List.replicate polls c.readBlock) after)
    (hwaits : j < 2 ∨ polls + 2 ≤ j) {addr : UInt8} {register : UInt16}
    (hchanged : after.registers.register addr register ≠ engine.registers.register addr register) :
    addr = c.address ∧ register ∈ blockRegisters := by
  have haddr : addr = c.address := by
    by_contra hne
    exact hchanged (by rw [Controller.register, h.others hne, Controller.register])
  subst haddr
  refine ⟨rfl, ?_⟩
  by_contra hout
  have hfile : (c.polled slave polls).file = slave.file.setAll 0x4002 c.pll.toBlock :=
    (hlatch.polled hwaits).file
  refine hchanged ?_
  rw [Controller.register, Controller.register, h.slave hslave, hslave]
  show (c.polled slave polls).file[register]? = slave.file[register]?
  rw [hfile, RegisterFile.getElem?_setAll_of_not_mem slave.file hout]

variable (hready : engine.Ready) (haddr : c.address ≤ maxAddress)
  (hpll : c.pll.isEnabled = true) (hunlocked : c.pll.isLocked = false)
  (hmask : mask &&& Pll.lockBit ≠ 0)
  (hlogger : ∀ level pieces (logger : κ), ∃ next, Logger.record level pieces logger = .ok next)
  (hlogger' : ∀ level pieces (logger : κ'), ∃ next, Logger.record level pieces logger = .ok next)
  (logger : κ')
include hready haddr hpll hunlocked hmask hlogger hlogger'

/-- A latch that fires at a poll that is made: the codec is brought up. -/
theorem locked_of_latch (htwo : 2 ≤ j)
    (hallowed : ∀ k, c.lockWait.maxPolls = some k → j ≤ k + 2) :
    ∃ limit, ∀ n, limit ≤ n → c.Locked engine.registers j (c.bringUp.run (engine, logger) n) := by
  have hmisses : ∀ i < j - 2, c.locks (c.polled slave i) = false := by
    intro i hi
    rw [hlatch.locks_polled hmask hunlocked (by omega), decide_eq_false (by omega)]
  have hlocks : c.locks (c.polled slave (j - 2)) = true := by
    rw [hlatch.locks_polled hmask hunlocked (by omega), decide_eq_true (by omega)]
  have hbrought := c.does_bringUp hlogger haddr hslave hlogger' hpll hmisses
    (fun most h => Nat.sub_le_of_le_add (hallowed most h)) hlocks engine logger (stage_nil hready)
  have hpolls : j - 2 + 1 = j - 1 := by omega
  have hreads : j - 1 + 1 = j := by omega
  rw [hpolls] at hbrought
  refine ⟨engine.sessionLimit (c.sequence (j - 1)), fun n hn => ?_⟩
  obtain ⟨_, hout, ⟨_, rfl⟩, hstage, hnaps⟩ := hbrought.exists_answer hn
  refine ⟨hout, ⟨_, _, ?_, rfl, rfl, ?_, c.blockRead_not_mem_booked_pokes c.table⟩, hnaps⟩
  · rw [hstage.transfers hready, List.nil_append, sequence, booked_append, booked_finish,
      List.append_assoc]
  · rw [count_booked_start, hreads]

/-- A latch that fires at no poll that is made: the wait expires. -/
theorem expired_of_latch {k : Nat} (hmost : c.lockWait.maxPolls = some k)
    (hnever : ¬(2 ≤ j ∧ j ≤ k + 2)) :
    ∃ limit, ∀ n, limit ≤ n →
      c.Expired engine.registers (k + 2) (c.bringUp.run (engine, logger) n) := by
  have hmisses : ∀ i ≤ k, c.locks (c.polled slave i) = false := by
    intro i hi
    rw [hlatch.locks_polled hmask hunlocked (by omega), decide_eq_false (by omega)]
  have hexpires := c.expires_bringUp hlogger haddr hslave hlogger' hpll hmisses hmost engine logger
    (stage_nil hready)
  refine ⟨engine.sessionLimit (c.start ++ List.replicate (k + 1) c.readBlock), fun n hn => ?_⟩
  obtain ⟨_, hout, rfl, hstage, -⟩ := hexpires.exists_answer hn
  refine ⟨hout, ⟨_, hstage.transfers hready, rfl, c.count_booked_start (k + 1)⟩, ?_⟩
  exact fun addr register => Stage.register_of_ne hslave hlatch hstage (by omega)

/-- A latch that has fired before the first poll, or never does: without a bound, the wait hangs. -/
theorem hangs_of_latch (hforever : c.lockWait = .infinite) (hj : j < 2) (polls : Nat) :
    (∀ n, (c.bringUp.run (engine, logger) n).outcome = .error .exhausted)
      ∧ ∃ limit, ∀ n, limit ≤ n →
        engine.registers.transfers
            ++ c.booked (c.start ++ List.replicate (polls + 1) c.readBlock)
          <+: (c.bringUp.run (engine, logger) n).state.1.registers.transfers := by
  have hmisses : ∀ i, c.locks (c.polled slave i) = false := by
    intro i
    rw [hlatch.locks_polled hmask hunlocked (.inl hj), decide_eq_false (by omega)]
  have hhangs := c.hangs_bringUp hlogger haddr hslave hlogger' hpll hforever hmisses polls engine
    logger (stage_nil hready)
  refine ⟨fun n => (hhangs n).1, ?_⟩
  refine ⟨engine.sessionLimit (c.start ++ List.replicate (polls + 1) c.readBlock), fun n hn => ?_⟩
  obtain ⟨mid, hmid, hlater⟩ := (hhangs n).2 hn
  rwa [hmid.transfers hready] at hlater

end Latching

end Config

variable [Logger κ] [Logger κ']

/--
**The wait for lock ends with the poll at which the codec's latch fires, if that poll is made.**

The engine has been brought up and waits without bound, nothing holds the bus, and the codec is a
slave with word sub-addresses. It has one latch, which sets the lock bit on read number `j` of the
lock register; the configured PLL block has the PLL enabled and the lock bit clear. The first read
is the one before the block is written, and the write clears the bit again, so the polls for lock
start with read number 2. Under a bound, the policy allows `k` polls after the first.

With a 7-bit address there are three ends. If `j` is at least 2, and at most `k + 2` under a bound,
the codec is brought up after `j` reads of the block, with a pause between any two polls (`Locked`).
Otherwise a bounded wait expires after `k + 2` reads, and only registers of the block have changed
(`Expired`). A wait without bound never ends if `j` is less than 2: however much is allowed it runs
out, after any number of polls. With another address the engine refuses the first read; no access is
made, and nothing else shows either.
-/
theorem bringUp_awaits_latch (c : Config) (hpll : c.pll.isEnabled = true)
    (hunlocked : c.pll.isLocked = false) {engine : Engine Controller κ} (logger : κ')
    (hinit : engine.initialized = true) (hwait : engine.config.wait = .infinite)
    (hreach : engine.registers.Reachable) (hstuck : engine.registers.stuckBusy = false)
    (hidle : engine.registers.inTransaction = false) {slave : Slave}
    (hslave : engine.registers.slaves[c.address]? = some slave) (hwidth : slave.width = 2)
    {mask : UInt8} {j : Nat} (hlatches : slave.latches = [⟨0x4007, mask, j⟩])
    (hmask : mask &&& Pll.lockBit ≠ 0)
    (hlogger : ∀ level pieces (logger : κ), ∃ next, Logger.record level pieces logger = .ok next)
    (hlogger' : ∀ level pieces (logger : κ'), ∃ next,
      Logger.record level pieces logger = .ok next) :
    let before := engine.registers
    let run := fun n => c.bringUp.run (engine, logger) n
    (c.address ≤ maxAddress →
      (2 ≤ j → (∀ k, c.lockWait.maxPolls = some k → j ≤ k + 2) →
        ∃ limit, ∀ n, limit ≤ n → c.Locked before j (run n))
      ∧ (∀ k, c.lockWait.maxPolls = some k → ¬(2 ≤ j ∧ j ≤ k + 2) →
        ∃ limit, ∀ n, limit ≤ n → c.Expired before (k + 2) (run n))
      ∧ (c.lockWait = .infinite → j < 2 → ∀ polls,
        (∀ n, (run n).outcome = .error .exhausted)
          ∧ ∃ limit, ∀ n, limit ≤ n →
            before.transfers ++ c.booked (c.start ++ List.replicate (polls + 1) c.readBlock)
              <+: (run n).state.1.registers.transfers))
    ∧ (maxAddress < c.address → ∀ n,
      (run n).outcome = .ok (.error (.bus .invalidAddress)) ∧ (run n).state.1 = engine
        ∧ (run n).events = []) := by
  intro before run
  have hready : engine.Ready := ⟨hinit, hwait, hreach.framed, hstuck, hidle⟩
  have hlatch : Latching mask j slave.file slave := ⟨hwidth, hlatches, rfl⟩
  refine ⟨fun haddr => ⟨fun htwo hallowed => ?_, fun k hmost hnever => ?_,
    fun hforever hj polls => ?_⟩, fun haddr n => ?_⟩
  · exact Config.locked_of_latch hslave hlatch hready haddr hpll hunlocked hmask hlogger hlogger'
      logger htwo hallowed
  · exact Config.expired_of_latch hslave hlatch hready haddr hpll hunlocked hmask hlogger hlogger'
      logger hmost hnever
  · exact Config.hangs_of_latch hslave hlatch hready haddr hpll hunlocked hmask hlogger hlogger'
      logger hforever hj polls
  · have hrun : run n = _ := Config.bringUp_refused hinit haddr logger n
    rw [hrun]
    exact ⟨rfl, rfl, rfl⟩

/-- Two polls after the first: a latch on the third read is in time, and one on the first is not. -/
theorem third_read_shows_lock :
    let controller (j : Nat) :=
      ((Controller.ofLatency 1 2).attach 0x3B 2).addLatch 0x3B ⟨0x4007, 0x02, j⟩
    let engine (j : Nat) : Engine Controller Unit := ⟨.standard, true, controller j, ()⟩
    let c : Config := { pll := .integer 4 0, lockWait := .bounded 20 10 }
    let run (j n : Nat) := (c.bringUp : ExceptT (BringUpError TransferError)
      (Proc (Engine Controller Unit × Unit)) Unit).run (engine j, ()) n
    (∃ limit, ∀ n, limit ≤ n → (run 3 n).outcome = .ok (.ok ())
        ∧ (run 3 n).state.1.registers.transfers.count (.read 0x3B 6) = 3
        ∧ sleeps .codec (run 3 n).events = [10000])
      ∧ ∃ limit, ∀ n, limit ≤ n → (run 1 n).outcome = .ok (.error .lockTimeout)
        ∧ (run 1 n).state.1.registers.transfers.count (.read 0x3B 6) = 4 := by
  intro controller engine c run
  have hreach : ∀ j, (controller j).Reachable := fun j => .addLatch (.attach (.powerOn 1 2) _ _) _ _
  have hslave : ∀ j, ∃ slave : Slave, (controller j).slaves[c.address]? = some slave
      ∧ slave.width = 2 ∧ slave.latches = [⟨0x4007, 0x02, j⟩] := fun j => ⟨_, rfl, rfl, rfl⟩
  have hrecord : ∀ level pieces (logger : Unit), ∃ next,
      Logger.record level pieces logger = .ok next := fun _ _ _ => ⟨(), rfl⟩
  have hinit : ∀ j, (engine j).initialized = true := fun _ => rfl
  constructor
  · obtain ⟨slave, hdevice, hwidth, hlatches⟩ := hslave 3
    obtain ⟨limit, hlocked⟩ := ((bringUp_awaits_latch c (by decide) (by decide) () (hinit 3) rfl
      (hreach 3) rfl rfl hdevice hwidth hlatches (by decide) hrecord hrecord).1 (by decide)).1
      (by decide) fun k hk => by
        obtain rfl := Option.some.inj hk
        decide
    refine ⟨limit, fun n hn => ?_⟩
    obtain ⟨hout, ⟨waiting, rest, htransfers, -, -, hreads, hnone⟩, hnaps⟩ := hlocked n hn
    have hrest : rest.count c.blockRead = 0 := List.count_eq_zero.mpr hnone
    refine ⟨hout, ?_, hnaps.trans (by decide)⟩
    show List.count c.blockRead (run 3 n).state.1.registers.transfers = 3
    rw [htransfers, List.count_append, List.count_append, hreads, List.count_cons, hrest]
    rfl
  · obtain ⟨slave, hdevice, hwidth, hlatches⟩ := hslave 1
    obtain ⟨limit, hexpired⟩ := ((bringUp_awaits_latch c (by decide) (by decide) () (hinit 1) rfl
      (hreach 1) rfl rfl hdevice hwidth hlatches (by decide) hrecord hrecord).1 (by decide)).2.1
      2 rfl (by decide)
    refine ⟨limit, fun n hn => ?_⟩
    obtain ⟨hout, ⟨waiting, htransfers, -, hreads⟩, -⟩ := hexpired n hn
    refine ⟨hout, ?_⟩
    show List.count c.blockRead (run 1 n).state.1.registers.transfers = 4
    rw [htransfers, List.count_append, hreads]
    rfl

/-- A codec at an address of eight bits that would show lock in time: it is never brought up. -/
theorem wide_address_is_refused :
    let controller := ((Controller.ofLatency 0 0).attach 0x80 2).addLatch 0x80 ⟨0x4007, 0x02, 3⟩
    let engine : Engine Controller Unit := ⟨.standard, true, controller, ()⟩
    let c : Config := { address := 0x80, pll := .integer 4 0, table := [] }
    let run (n : Nat) := (c.bringUp : ExceptT (BringUpError TransferError)
      (Proc (Engine Controller Unit × Unit)) Unit).run (engine, ()) n
    engine.config.wait = .infinite ∧ c.lockWait = .infinite
      ∧ c.pll.isEnabled = true ∧ c.pll.isLocked = false
      ∧ controller.Reachable ∧ controller.stuckBusy = false ∧ controller.inTransaction = false
      ∧ (∃ slave : Slave, controller.slaves[c.address]? = some slave ∧ slave.width = 2
        ∧ slave.latches = [⟨0x4007, 0x02, 3⟩])
      ∧ (∀ n, (run n).outcome = .ok (.error (.bus .invalidAddress)))
      ∧ ¬∃ limit, ∀ n, limit ≤ n → c.Locked controller 3 (run n) := by
  intro controller engine c run
  have hrefused : ∀ n, (run n).outcome = .ok (.error (.bus .invalidAddress)) := by
    intro n
    have hrun : run n = _ :=
      Config.bringUp_refused (rfl : engine.initialized = true) (by decide) () n
    rw [hrun]
  refine ⟨rfl, rfl, by decide, by decide, .addLatch (.attach (.powerOn 0 0) _ _) _ _, rfl, rfl,
    ⟨_, rfl, rfl, rfl⟩, hrefused, ?_⟩
  rintro ⟨limit, hlocked⟩
  have hok := (hlocked limit (Nat.le_refl limit)).outcome
  rw [hrefused limit] at hok
  cases hok

end TwoWire.Codec
