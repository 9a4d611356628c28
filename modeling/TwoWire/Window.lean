import TwoWire.RegisterBlock

/-!
# Register windows

A window is plain byte memory from a base address on. It is read and written at every width, the
least significant byte first. An access lies in the window, and its address is a multiple of its
width; any other is a fault.
-/

namespace TwoWire

/-- Byte memory from an address on. -/
structure Window where
  base : Nat
  bytes : List UInt8
  deriving DecidableEq, Repr

namespace Window

/-- Memory of a given size from address zero on, with the given bytes first and zero behind them. -/
def ofBytes (size : Nat) (bytes : List UInt8) : Window :=
  ⟨0, (bytes ++ List.replicate (size - bytes.length) 0).take size⟩

/-- The access is aligned and in range. -/
def Fits (w : Window) (width : Width) (offset : Nat) : Prop :=
  (w.base + offset) % width.size = 0 ∧ offset + width.size ≤ w.bytes.length

instance (w : Window) (width : Width) (offset : Nat) : Decidable (w.Fits width offset) :=
  inferInstanceAs (Decidable (_ ∧ _))

/-- The value at an offset. -/
def get (w : Window) (width : Width) (offset : Nat) : width.Value :=
  width.truncate (littleEndian ((w.bytes.drop offset).take width.size))

/-- The window with a value stored at an offset. -/
def set (w : Window) (width : Width) (offset : Nat) (value : width.Value) : Window :=
  { w with
    bytes := w.bytes.take offset ++ littleEndianBytes width.size (width.toNat value)
      ++ w.bytes.drop (offset + width.size) }

instance : RegisterBlock Window where
  read width offset w :=
    if w.Fits width offset then .ok (w.get width offset, w)
    else .error (.unexpectedRead width offset)
  write width offset value w :=
    if w.Fits width offset then .ok (w.set width offset value)
    else .error (.unexpectedWrite width offset)

end Window

end TwoWire
