/-!
# Sub-addresses

A register-file slave keeps an internal pointer that a transfer sets right after the address byte,
with one byte or with two, the high byte first.
-/

namespace TwoWire

/-- A register offset inside a slave. -/
inductive SubAddress
  | byte (offset : UInt8)
  | word (offset : UInt16)
  deriving DecidableEq, Repr

namespace SubAddress

/-- The bytes in bus order. -/
def bytes : SubAddress → List UInt8
  | byte offset => [offset]
  | word offset => [(offset >>> 8).toUInt8, offset.toUInt8]

/-- The bytes in a field of two, an unused place holding zero. -/
def field (s : SubAddress) : List UInt8 :=
  s.bytes ++ List.replicate (2 - s.bytes.length) 0

/-- The text used in diagnostics. -/
def name : SubAddress → String
  | byte offset => "Byte(" ++ toString offset.toNat ++ ")"
  | word offset => "Word(" ++ toString offset.toNat ++ ")"

theorem bytes_ne_nil (s : SubAddress) : s.bytes ≠ [] := by cases s <;> simp [bytes]

end SubAddress

end TwoWire
