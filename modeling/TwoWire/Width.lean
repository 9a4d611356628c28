/-!
# Access widths

Registers are read and written as one, two or four bytes. `Width.Value` is the type of a value of
a given width. Multi-byte values lie in memory with the least significant byte first:
`littleEndian` reads such bytes and `littleEndianBytes` writes them.
-/

namespace TwoWire

/-- How many bytes one access moves. -/
inductive Width
  | byte
  | half
  | word
  deriving DecidableEq, Repr

namespace Width

/-- Number of bytes. -/
def size : Width → Nat
  | byte => 1
  | half => 2
  | word => 4

/-- Number of bits. -/
def bits (w : Width) : Nat := 8 * w.size

/-- The values that an access of this width moves. -/
abbrev Value : Width → Type
  | byte => UInt8
  | half => UInt16
  | word => UInt32

/-- The number that a value stands for. -/
def toNat : (w : Width) → w.Value → Nat
  | byte, v => UInt8.toNat v
  | half, v => UInt16.toNat v
  | word, v => UInt32.toNat v

/-- The value of a number, high bits dropped. -/
def truncate : (w : Width) → Nat → w.Value
  | byte, n => UInt8.ofNat n
  | half, n => UInt16.ofNat n
  | word, n => UInt32.ofNat n

instance : (w : Width) → DecidableEq w.Value
  | byte => inferInstanceAs (DecidableEq UInt8)
  | half => inferInstanceAs (DecidableEq UInt16)
  | word => inferInstanceAs (DecidableEq UInt32)

end Width

/-! ## Byte order -/

/-- The number whose bytes these are, least significant first. -/
def littleEndian : List UInt8 → Nat
  | [] => 0
  | b :: rest => b.toNat + 256 * littleEndian rest

/-- The `count` low bytes of a number, least significant first. -/
def littleEndianBytes : Nat → Nat → List UInt8
  | 0, _ => []
  | count + 1, n => UInt8.ofNat n :: littleEndianBytes count (n / 256)

@[simp] theorem length_littleEndianBytes (count n : Nat) :
    (littleEndianBytes count n).length = count := by
  induction count generalizing n with
  | zero => rfl
  | succ count ih => simp [littleEndianBytes, ih]

end TwoWire
