import Mathlib
import TwoWire.Proofs.Codec.Stages
import TwoWire.Proofs.Refusal

/-!
# The PLL block

The six bytes of a block and the contents of the PLL stand for each other, reserved bits included
(`Pll.ofBlock_toBlock`, `Pll.toBlock_ofBlock`). What a block says of the PLL is read off its bytes
(`Pll.Describes`): the configuration byte is the number `8 R + 2 X + Type` (`Pll.toNat_configOf`),
and each field is a digit of that number, so that no factor reaches into the field of another.

Over a ready engine a block that has been written to a codec without latches is read back
(`pll_block_round_trips`): the registers of the block hold its bytes, and reading changes none of
them.
-/

namespace TwoWire.Codec

open Log (Logger)
open Sim (Controller Slave)

namespace Pll

/-! ## Two bytes of a number -/

theorem toNat_ofBigEndian (high low : UInt8) :
    (ofBigEndian high low).toNat = 256 * high.toNat + low.toNat := by
  have hhigh : high.toNat < 256 := high.toNat_lt
  have hlow : low.toNat < 2 ^ 8 := low.toNat_lt
  have hshift : (high.toUInt16 <<< 8).toNat = 2 ^ 8 * high.toNat := by
    rw [UInt16.toNat_shiftLeft, UInt8.toNat_toUInt16]
    show high.toNat <<< 8 % 2 ^ 16 = 2 ^ 8 * high.toNat
    rw [Nat.shiftLeft_eq]
    omega
  rw [ofBigEndian, UInt16.toNat_or, hshift, UInt8.toNat_toUInt16,
    ← Nat.two_pow_add_eq_or_of_lt hlow]

theorem bigEndian_eq (v : UInt16) :
    bigEndian v = [UInt8.ofNat (v.toNat / 256), UInt8.ofNat v.toNat] := by
  have hhigh : (v >>> 8).toUInt8 = UInt8.ofNat (v.toNat / 256) := by
    refine UInt8.toNat_inj.mp ?_
    simp [Nat.shiftRight_eq_div_pow]
  rw [bigEndian, hhigh]
  rfl

theorem ofBigEndian_bigEndian (v : UInt16) : ofBigEndian (v >>> 8).toUInt8 v.toUInt8 = v := by
  have hv : v.toNat < 65536 := v.toNat_lt
  obtain ⟨hhigh, hlow⟩ : (v >>> 8).toUInt8 = UInt8.ofNat (v.toNat / 256)
      ∧ v.toUInt8 = UInt8.ofNat v.toNat := by simpa [bigEndian] using bigEndian_eq v
  refine UInt16.toNat_inj.mp ?_
  rw [toNat_ofBigEndian, hhigh, hlow, UInt8.toNat_ofNat', UInt8.toNat_ofNat']
  omega

theorem bigEndian_ofBigEndian (high low : UInt8) :
    bigEndian (ofBigEndian high low) = [high, low] := by
  have hlow : low.toNat < 256 := low.toNat_lt
  have hhigh : (256 * high.toNat + low.toNat) / 256 = high.toNat := by omega
  have hrest : UInt8.ofNat (256 * high.toNat + low.toNat) = low := by
    refine UInt8.toNat_inj.mp ?_
    rw [UInt8.toNat_ofNat']
    omega
  rw [bigEndian_eq, toNat_ofBigEndian, hhigh, hrest, UInt8.ofNat_toNat]

/-! ## Blocks and contents -/

theorem ofBlock_toBlock (p : Pll) : ofBlock p.toBlock = p := by
  obtain ⟨m, n, config, control⟩ := p
  show Pll.mk (ofBigEndian (m >>> 8).toUInt8 m.toUInt8) (ofBigEndian (n >>> 8).toUInt8 n.toUInt8)
    config control = _
  rw [ofBigEndian_bigEndian, ofBigEndian_bigEndian]

theorem toBlock_ofBlock {block : List UInt8} (h : block.length = blockLength) :
    (ofBlock block).toBlock = block := by
  match block, h with
  | [m₁, m₀, n₁, n₀, config, control], _ =>
    rw [ofBlock, toBlock, bigEndian_ofBigEndian, bigEndian_ofBigEndian]
    rfl

/-! ## The fields of the configuration byte -/

/-- A mask of low bits keeps a remainder. -/
theorem toNat_and_mask (b mask : UInt8) (width : Nat) (h : mask.toNat = 2 ^ width - 1) :
    (b &&& mask).toNat = b.toNat % 2 ^ width := by
  rw [UInt8.toNat_and, h, Nat.and_two_pow_sub_one_eq_mod]

/-- The configuration byte is a number of three digits, each cut to its field. -/
theorem toNat_configOf (r x : UInt8) (fractional : Bool) :
    (configOf r x fractional).toNat
      = 8 * (r.toNat % 16) + 2 * (x.toNat % 4) + fractional.toNat := by
  have hr : ((r &&& rMask) <<< rShift).toNat = 2 ^ 3 * (r.toNat % 16) := by
    rw [UInt8.toNat_shiftLeft, toNat_and_mask r _ 4 rfl]
    show (r.toNat % 16) <<< 3 % 256 = 2 ^ 3 * (r.toNat % 16)
    rw [Nat.shiftLeft_eq]
    omega
  have hx : ((x &&& xMask) <<< xShift).toNat = 2 * (x.toNat % 4) := by
    rw [UInt8.toNat_shiftLeft, toNat_and_mask x _ 2 rfl]
    show (x.toNat % 4) <<< 1 % 256 = 2 * (x.toNat % 4)
    rw [Nat.shiftLeft_eq]
    omega
  have htype : (if fractional then fractionalBit else 0 : UInt8).toNat = fractional.toNat := by
    cases fractional <;> rfl
  have hlow : 2 * (x.toNat % 4) < 2 ^ 3 := by omega
  have hbit : fractional.toNat < 2 ^ 1 := fractional.toNat_lt
  -- each digit lies below those before it, so putting bits together adds
  have hfactors : 2 ^ 3 * (r.toNat % 16) + 2 * (x.toNat % 4)
      = 2 ^ 1 * (4 * (r.toNat % 16) + x.toNat % 4) := by omega
  rw [configOf, UInt8.toNat_or, UInt8.toNat_or, hr, hx, htype,
    ← Nat.two_pow_add_eq_or_of_lt hlow, hfactors, ← Nat.two_pow_add_eq_or_of_lt hbit]
  omega

theorem toNat_r (p : Pll) : p.r.toNat = p.config.toNat / 8 % 16 := by
  rw [r, toNat_and_mask _ _ 4 rfl, UInt8.toNat_shiftRight, Nat.shiftRight_eq_div_pow]
  rfl

theorem toNat_x (p : Pll) : p.x.toNat = p.config.toNat / 2 % 4 := by
  rw [x, toNat_and_mask _ _ 2 rfl, UInt8.toNat_shiftRight, Nat.shiftRight_eq_div_pow]
  rfl

theorem isFractional_eq (p : Pll) : p.isFractional = (p.config.toNat % 2 != 0) := by
  have hbit : (p.config &&& fractionalBit).toNat = p.config.toNat % 2 :=
    toNat_and_mask p.config _ 1 rfl
  rw [isFractional, ← hbit, Bool.eq_iff_iff, bne_iff_ne, bne_iff_ne, ← UInt8.toNat_zero,
    ne_eq, ne_eq, UInt8.toNat_inj]

/-! ## What a block says -/

/--
The block sets an enabled PLL that is not locked, with these factors, each cut to its field, and
with this fraction, high bytes first. The configuration byte holds nothing else.
-/
structure Describes (block : List UInt8) (r x : UInt8) (n m : UInt16) (fractional : Bool) :
    Prop where
  denominator : ∃ high low, block.take 2 = [high, low] ∧ 256 * high.toNat + low.toNat = m.toNat
  numerator : ∃ high low,
    (block.drop 2).take 2 = [high, low] ∧ 256 * high.toNat + low.toNat = n.toNat
  fraction : (ofBlock block).m = m ∧ (ofBlock block).n = n
  factors : (ofBlock block).r = r % 16 ∧ (ofBlock block).x = x % 4
  config : (ofBlock block).config.toNat
    = 8 * (r.toNat % 16) + 2 * (x.toNat % 4) + fractional.toNat
  topBit : (ofBlock block).config &&& 0x80 = 0
  isFractional : (ofBlock block).isFractional = fractional
  isEnabled : (ofBlock block).isEnabled = true
  isLocked : (ofBlock block).isLocked = false

/-- A number is told by the two bytes that it is written as. -/
theorem exists_bytes (v : UInt16) (rest : List UInt8) : ∃ high low,
    (bigEndian v ++ rest).take 2 = [high, low] ∧ 256 * high.toNat + low.toNat = v.toNat :=
  ⟨(v >>> 8).toUInt8, v.toUInt8, rfl, by rw [← toNat_ofBigEndian, ofBigEndian_bigEndian]⟩

theorem describes (r x : UInt8) (n m : UInt16) (fractional : Bool) :
    Describes (Pll.mk m n (configOf r x fractional) enableBit).toBlock r x n m fractional := by
  have hconfig := toNat_configOf r x fractional
  have hbit : fractional.toNat < 2 := fractional.toNat_lt
  constructor
  case denominator => exact exists_bytes m _
  case numerator => exact exists_bytes n _
  all_goals rw [ofBlock_toBlock]
  case fraction => exact ⟨rfl, rfl⟩
  case factors =>
    constructor
    · refine UInt8.toNat_inj.mp ?_
      rw [toNat_r, hconfig, UInt8.toNat_mod]
      show _ = r.toNat % 16
      omega
    · refine UInt8.toNat_inj.mp ?_
      rw [toNat_x, hconfig, UInt8.toNat_mod]
      show _ = x.toNat % 4
      omega
  case config => exact hconfig
  case topBit =>
    have hlow : (configOf r x fractional).toNat < 2 ^ 7 := by omega
    refine UInt8.toNat_inj.mp ?_
    show (configOf r x fractional).toNat &&& 2 ^ 7 = 0
    rw [Nat.and_two_pow, Nat.testBit_lt_two_pow hlow]
    rfl
  case isFractional =>
    have hparity : (configOf r x fractional).toNat % 2 = fractional.toNat := by omega
    rw [isFractional_eq, hparity]
    cases fractional <;> rfl
  case isEnabled =>
    show (enableBit &&& enableBit != 0) = true
    decide
  case isLocked =>
    show (enableBit &&& lockBit != 0) = false
    decide

end Pll

/-! ## Over the bus -/

namespace Config

variable {κ : Type} [Logger κ] {c : Config} {engine : Engine Controller κ}

/-- A ready engine writes a PLL block to a codec without latches, and reads it back. -/
theorem readPll_of_pokeMany (hready : engine.Ready) (haddr : c.address ≤ maxAddress)
    {slave : Slave} (hslave : engine.registers.slaves[c.address]? = some slave)
    (hplain : slave.Plain 2)
    (hlogger : ∀ level pieces (logger : κ), ∃ next, Logger.record level pieces logger = .ok next)
    (p : Pll) : ∃ limit, ∀ n, limit ≤ n → ∀ m, limit ≤ m →
      let written := (c.pokeMany Register.pll.offset p.toBlock : Proc (Engine Controller κ) _)
        engine n
      written.outcome = .ok (.ok ())
        ∧ ((c.readPll : Proc (Engine Controller κ) _) written.state m).outcome = .ok (.ok p) := by
  have hblock : p.toBlock ≠ [] := List.ne_nil_of_length_pos (by rw [Pll.length_toBlock]; decide)
  have hwrite := (stage_nil hready).attains_request (c := c) hlogger
    (valid_pokeMany haddr Register.pll.offset hblock) rfl (c.pokeMany_eq _ p.toBlock)
  refine ⟨engine.sessionLimit [.writeRegisters c.address (subAddress Register.pll.offset) p.toBlock]
    + engine.sessionLimit [c.readBlock], fun n hn m hm => ?_⟩
  obtain ⟨_, hwritten, ⟨_, rfl, -⟩, hstage, -⟩ := hwrite.exists_answer (n := n) (by omega)
  refine ⟨hwritten, ?_⟩
  have hread := hstage.attains_request hlogger (valid_readBlock haddr) rfl c.readPll_eq
  obtain ⟨_, hshown, ⟨reply, rfl, hfilled⟩, -⟩ := hread.exists_answer (n := m) (by omega)
  have hlen : p.toBlock.length ≤ 65536 := by
    rw [Pll.length_toBlock]
    decide
  have hblock : (c.readBlock.fill reply.received).flatten = p.toBlock := by
    rw [hfilled, hstage.slave hslave]
    exact Slave.Plain.serve_read_of_written (subAddress Register.pll.offset) hplain hlen
  rw [hshown, hblock, Pll.ofBlock_toBlock]

/-- With an address of more than seven bits, the engine refuses the write and then the read. -/
theorem readPll_refused {β : Type} [RegisterBlock β] {engine : Engine β κ}
    (hinit : engine.initialized = true) (haddr : maxAddress < c.address) (p : Pll) (n m : Nat) :
    let written := (c.pokeMany Register.pll.offset p.toBlock : Proc (Engine β κ) _) engine n
    let shown := (c.readPll : Proc (Engine β κ) _) written.state m
    written.outcome = .ok (.error .invalidAddress)
      ∧ shown.outcome = .ok (.error .invalidAddress) ∧ shown.state = engine
      ∧ written.events = [] ∧ shown.events = [] := by
  intro written shown
  have hserve : ∀ (request : Request) (k : Nat), request.addr = c.address →
      (Master.serve request : Proc (Engine β κ) _) engine k
        = ⟨[], .ok ⟨.error .invalidAddress, []⟩, engine, k⟩ := by
    intro request k hrequest
    exact Engine.serve_of_refuses (.invalidAddress hinit (hrequest ▸ haddr)) k
  have hwritten : written = ⟨[], .ok (.error .invalidAddress), engine, n⟩ := by
    show (c.pokeMany _ _ : Proc (Engine β κ) _) engine n = _
    rw [c.pokeMany_eq, Proc.map_apply, hserve _ n rfl]
    rfl
  have hshown : shown = ⟨[], .ok (.error .invalidAddress), engine, m⟩ := by
    show (c.readPll : Proc (Engine β κ) _) written.state m = _
    rw [hwritten, c.readPll_eq, Proc.map_apply, hserve _ m rfl]
    rfl
  rw [hwritten, hshown]
  exact ⟨rfl, rfl, rfl, rfl, rfl⟩

end Config

variable {κ : Type} [Logger κ]

/--
**A PLL block is read back, from its bytes and over the bus.**

Blocks of six bytes and contents stand for each other. The block of a fractional PLL describes its
factors and its fraction, and that of an integer one describes its factors and a fraction of zeros,
whatever the factors are.

Over the bus, the engine has been brought up and waits without bound, nothing holds the bus, and the
codec is a slave with word sub-addresses and without latches. With a 7-bit address, every block that
is written can be read back within some allowance. With another address the engine refuses both and
makes no access.
-/
theorem pll_block_round_trips :
    (∀ p : Pll, p.toBlock.length = 6 ∧ Pll.ofBlock p.toBlock = p)
    ∧ (∀ block : List UInt8, block.length = 6 → (Pll.ofBlock block).toBlock = block)
    ∧ (∀ r x n m, Pll.Describes (Pll.fractional r x n m).toBlock r x n m true)
    ∧ (∀ r x, Pll.Describes (Pll.integer r x).toBlock r x 0 0 false)
    ∧ ∀ (c : Config) (engine : Engine Controller κ) (p : Pll) (slave : Slave),
      engine.initialized = true → engine.config.wait = .infinite →
      engine.registers.Reachable → engine.registers.stuckBusy = false →
      engine.registers.inTransaction = false →
      engine.registers.slaves[c.address]? = some slave → slave.Plain 2 →
      (∀ level pieces (logger : κ), ∃ next, Logger.record level pieces logger = .ok next) →
      let write := (c.pokeMany Register.pll.offset p.toBlock : Proc (Engine Controller κ) _)
      let read := (c.readPll : Proc (Engine Controller κ) _)
      (c.address ≤ maxAddress → ∃ limit, ∀ n, limit ≤ n → ∀ m, limit ≤ m →
        (write engine n).outcome = .ok (.ok ())
          ∧ (read (write engine n).state m).outcome = .ok (.ok p))
      ∧ (maxAddress < c.address → ∀ n m,
        (write engine n).outcome = .ok (.error .invalidAddress)
          ∧ (read (write engine n).state m).outcome = .ok (.error .invalidAddress)
          ∧ (read (write engine n).state m).state = engine
          ∧ (write engine n).events = [] ∧ (read (write engine n).state m).events = []) := by
  refine ⟨fun p => ⟨p.length_toBlock, p.ofBlock_toBlock⟩, fun block => Pll.toBlock_ofBlock,
    fun r x n m => Pll.describes r x n m true, fun r x => Pll.describes r x 0 0 false, ?_⟩
  intro c engine p slave hinit hwait hreach hstuck hidle hslave hplain hlogger write read
  have hready : engine.Ready := ⟨hinit, hwait, hreach.framed, hstuck, hidle⟩
  exact ⟨fun haddr => Config.readPll_of_pokeMany hready haddr hslave hplain hlogger p,
    fun haddr => Config.readPll_refused hinit haddr p⟩

/-- Reserved bits and factors that are too large, and a block that is read back with its lock bit. -/
theorem reserved_bits_are_read_back :
    let controller := ((Controller.ofLatency 1 2).attach 0x3B 2).preload [0xEE]
    let engine : Engine Controller Unit := ⟨.standard, true, controller, ()⟩
    let c : Config := {}
    let p : Pll := ⟨0x007D, 0xFF0C, 0x86, 0xFE⟩
    let write := (c.pokeMany Register.pll.offset p.toBlock : Proc (Engine Controller Unit) _)
    let read := (c.readPll : Proc (Engine Controller Unit) _)
    (Pll.ofBlock [0x00, 0x7D, 0xFF, 0x0C, 0x86, 0xFE]).toBlock
        = [0x00, 0x7D, 0xFF, 0x0C, 0x86, 0xFE]
      ∧ (Pll.ofBlock (Pll.fractional 0xF4 0xFF 12 125).toBlock).config.toNat = 39
      ∧ (∃ limit, ∀ n, limit ≤ n → ∀ m, limit ≤ m →
        (write engine n).outcome = .ok (.ok ())
          ∧ (read (write engine n).state m).outcome = .ok (.ok p)) := by
  intro controller engine c p write read
  obtain ⟨-, hblock, hfractional, -, hbus⟩ := @pll_block_round_trips Unit _
  have hreach : controller.Reachable := .preload (.attach (.powerOn 1 2) _ _) _
  obtain ⟨slave, hslave, hplain⟩ : ∃ slave : Slave,
      engine.registers.slaves[c.address]? = some slave ∧ slave.Plain 2 := ⟨_, rfl, rfl, rfl⟩
  have hrecord : ∀ level pieces (logger : Unit), ∃ next,
      Logger.record level pieces logger = .ok next := fun _ _ _ => ⟨(), rfl⟩
  refine ⟨hblock _ rfl, (hfractional 0xF4 0xFF 12 125).config, ?_⟩
  exact (hbus c engine p slave rfl rfl hreach rfl rfl hslave hplain hrecord).1 (by decide)

/-- A codec at an address of eight bits: its PLL block is never read back. -/
theorem block_at_wide_address_is_refused :
    let controller := (Controller.ofLatency 0 0).attach 0x80 2
    let engine : Engine Controller Unit := ⟨.standard, true, controller, ()⟩
    let c : Config := { address := 0x80 }
    let p : Pll := .integer 4 1
    let write := (c.pokeMany Register.pll.offset p.toBlock : Proc (Engine Controller Unit) _)
    let read := (c.readPll : Proc (Engine Controller Unit) _)
    engine.config.wait = .infinite ∧ controller.Reachable ∧ controller.stuckBusy = false
      ∧ controller.inTransaction = false
      ∧ (∃ slave : Slave, controller.slaves[c.address]? = some slave ∧ slave.Plain 2)
      ∧ (∀ n m, (read (write engine n).state m).outcome = .ok (.error .invalidAddress))
      ∧ ¬∃ limit, ∀ n, limit ≤ n → ∀ m, limit ≤ m →
        (read (write engine n).state m).outcome = .ok (.ok p) := by
  intro controller engine c p write read
  have hrefused : ∀ n m, (read (write engine n).state m).outcome = .ok (.error .invalidAddress) :=
    fun n m => (Config.readPll_refused (rfl : engine.initialized = true) (by decide) p n m).2.1
  refine ⟨rfl, .attach (.powerOn 0 0) _ _, rfl, rfl, ⟨_, rfl, rfl, rfl⟩, hrefused, ?_⟩
  rintro ⟨limit, hshown⟩
  have hok := hshown limit (Nat.le_refl limit) limit (Nat.le_refl limit)
  rw [hrefused limit limit] at hok
  cases hok

end TwoWire.Codec
