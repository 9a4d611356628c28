import TwoWire.RegisterMap
import TwoWire.TxWord

/-!
# Reading transmit words

What the payload and the control bits of each kind of word are. An address word carries a 7-bit
address above its direction bit; an eighth address bit would be lost, which is why larger
addresses have to be refused. What an address byte says is checked byte by byte.
-/

namespace TwoWire.TxWord

/-! ## Control bits -/

/-- A control bit is looked up at its place. -/
theorem and_ne_zero_eq_getLsbD (bits : UInt16) {bit : UInt16} {place : Nat}
    (hbit : bit.toBitVec = BitVec.twoPow 16 place) (hne : bit ≠ 0) :
    (bits &&& bit != 0) = bits.toBitVec.getLsbD place := by
  have hand := BitVec.and_twoPow bits.toBitVec place
  rw [← hbit, ← UInt16.toBitVec_and] at hand
  cases hset : bits.toBitVec.getLsbD place with
  | true =>
    rw [hset, if_pos rfl] at hand
    rw [UInt16.toBitVec_inj.mp hand]
    exact bne_iff_ne.mpr hne
  | false =>
    rw [hset, if_neg Bool.false_ne_true] at hand
    have hzero : bits &&& bit = 0 := UInt16.toBitVec_inj.mp hand
    rw [hzero]
    rfl

theorem isStart_eq_getLsbD (w : TxWord) : w.isStart = w.bits.toBitVec.getLsbD 8 :=
  and_ne_zero_eq_getLsbD w.bits rfl (by decide)

theorem isStop_eq_getLsbD (w : TxWord) : w.isStop = w.bits.toBitVec.getLsbD 9 :=
  and_ne_zero_eq_getLsbD w.bits rfl (by decide)

@[simp] theorem isStart_start (addr : UInt8) (dir : Direction) :
    (start addr dir).isStart = true := by
  cases dir <;> simp [isStart_eq_getLsbD, start, startBit, Direction.bit]

@[simp] theorem isStop_start (addr : UInt8) (dir : Direction) :
    (start addr dir).isStop = false := by
  cases dir <;> simp [isStop_eq_getLsbD, start, startBit, Direction.bit]

@[simp] theorem isStart_data (byte : UInt8) : (data byte).isStart = false := by
  simp [isStart_eq_getLsbD, data]

@[simp] theorem isStop_data (byte : UInt8) : (data byte).isStop = false := by
  simp [isStop_eq_getLsbD, data]

@[simp] theorem isStart_stop (byte : UInt8) : (stop byte).isStart = false := by
  simp [isStart_eq_getLsbD, stop, stopBit]

@[simp] theorem isStop_stop (byte : UInt8) : (stop byte).isStop = true := by
  simp [isStop_eq_getLsbD, stop, stopBit]

@[simp] theorem isStart_closing (byte : UInt8) (last : Bool) :
    (closing byte last).isStart = false := by
  cases last <;> simp [closing]

@[simp] theorem isStop_closing (byte : UInt8) (last : Bool) :
    (closing byte last).isStop = last := by
  cases last <;> simp [closing]

/-- Bytes come without START. -/
theorem map_isStart_ofBytes (bytes : List UInt8) (last : Bool) :
    (ofBytes bytes last).map isStart = List.replicate bytes.length false := by
  induction bytes with
  | nil => rfl
  | cons b rest ih =>
    match rest with
    | [] => simp [ofBytes]
    | _ :: _ => simpa [ofBytes, List.replicate_succ] using ih

/-- Bytes come without STOP, except for the last one. -/
theorem map_isStop_ofBytes (bytes : List UInt8) (last : Bool) :
    (ofBytes bytes last).map isStop
      = List.replicate (bytes.length - 1) false ++ if bytes.isEmpty then [] else [last] := by
  induction bytes with
  | nil => rfl
  | cons b rest ih =>
    match rest with
    | [] => simp [ofBytes]
    | _ :: _ => simpa [ofBytes, List.replicate_succ] using ih

/-! ## Payloads -/

@[simp] theorem payload_data (byte : UInt8) : (data byte).payload = byte :=
  UInt8.toUInt8_toUInt16 byte

@[simp] theorem payload_stop (byte : UInt8) : (stop byte).payload = byte := by
  have hbit : stopBit.toUInt8 = 0 := rfl
  rw [stop, payload, UInt16.toUInt8_or, hbit, UInt8.zero_or, UInt8.toUInt8_toUInt16]

@[simp] theorem payload_closing (byte : UInt8) (last : Bool) :
    (closing byte last).payload = byte := by
  cases last <;> simp [closing]

/-- What holds of the 256 bytes holds of every byte. -/
theorem forall_byte {p : UInt8 → Prop} (h : ∀ n : Fin 256, p (UInt8.ofFin n)) (byte : UInt8) :
    p byte := by
  simpa using h byte.toFin

/-- A slave finds its 7-bit address in the address byte. -/
theorem payload_start_shift {addr : UInt8} (h : addr ≤ maxAddress) (dir : Direction) :
    (start addr dir).payload >>> 1 = addr := by
  have hall : ∀ byte : UInt8, byte ≤ maxAddress → (start byte dir).payload >>> 1 = byte := by
    cases dir <;> exact forall_byte (by decide +kernel)
  exact hall addr h

/-- The lowest bit of the address byte asks for a read. -/
theorem payload_start_bit (addr : UInt8) (dir : Direction) :
    (start addr dir).payload &&& 1 = 1 ↔ dir = .read := by
  revert addr
  cases dir <;> exact forall_byte (by decide +kernel)

end TwoWire.TxWord
