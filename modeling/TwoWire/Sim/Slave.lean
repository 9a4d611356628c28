import Std.Data.ExtTreeMap

/-!
# Register-file slaves

A slave on the bus is a file of byte registers with 16-bit numbers and a pointer that moves on
with every byte, from the last register to the first. A write transfer starts with as many pointer
bytes as the slave's width says. A register that was never set reads as zero.

A latch sets bits of a register on a certain read of it, as a status bit does that comes up after a
while.
-/

namespace TwoWire.Sim

/-- The registers that were set, with their contents. -/
abbrev RegisterFile : Type := Std.ExtTreeMap UInt16 UInt8

namespace RegisterFile

/-- Sets one register. -/
def set (file : RegisterFile) (register : UInt16) (value : UInt8) : RegisterFile :=
  file.insert register value

/-- Sets consecutive registers; the number after the last one is zero. -/
def setAll (file : RegisterFile) (register : UInt16) : List UInt8 → RegisterFile
  | [] => file
  | value :: rest => (file.set register value).setAll (register + 1) rest

/-- What a read on the bus gives. -/
def value (file : RegisterFile) (register : UInt16) : UInt8 := file[register]?.getD 0

@[simp] theorem set_same (file : RegisterFile) (register : UInt16) (v : UInt8) :
    (file.set register v)[register]? = some v := by simp [set]

theorem set_other (file : RegisterFile) {register other : UInt16} (v : UInt8)
    (h : other ≠ register) : (file.set register v)[other]? = file[other]? := by
  simp [set, Std.ExtTreeMap.getElem?_insert, Ne.symm h]

end RegisterFile

/-- Sets the bits of `mask` on the `readsLeft`-th read from now. -/
structure Latch where
  register : UInt16
  mask : UInt8
  readsLeft : Nat
  deriving DecidableEq, Repr

namespace Latch

/-- This read of a register is the one that the latch waits for. -/
def fires (latch : Latch) (register : UInt16) : Bool :=
  latch.register == register && latch.readsLeft == 1

/-- The latch after a read of a register. -/
def count (latch : Latch) (register : UInt16) : Latch :=
  if latch.register = register then { latch with readsLeft := latch.readsLeft - 1 } else latch

end Latch

/-- A slave. -/
structure Slave where
  /-- Pointer bytes at the start of a write. -/
  width : Nat
  file : RegisterFile
  pointer : UInt16
  latches : List Latch

namespace Slave

/-- A slave with no register set. -/
def ofWidth (width : Nat) : Slave := ⟨width, ∅, 0, []⟩

/-- The register file after the latches that a read of `register` fires. -/
def latched (slave : Slave) (register : UInt16) : RegisterFile :=
  (slave.latches.filter (·.fires register)).foldl
    (fun file latch => file.set register (file.value register ||| latch.mask)) slave.file

/-- The byte that a read gives, and the slave after it. -/
def read (slave : Slave) : UInt8 × Slave :=
  let file := slave.latched slave.pointer
  (file.value slave.pointer,
    { slave with
      file
      pointer := slave.pointer + 1
      latches := slave.latches.map (·.count slave.pointer) })

/-- The bytes that several reads give, and the slave after them. -/
def readMany (slave : Slave) : Nat → List UInt8 × Slave
  | 0 => ([], slave)
  | count + 1 =>
    let (value, slave) := slave.read
    let (values, slave) := slave.readMany count
    (value :: values, slave)

/-- Stores a byte at the pointer. -/
def store (slave : Slave) (value : UInt8) : Slave :=
  { slave with file := slave.file.set slave.pointer value, pointer := slave.pointer + 1 }

/-- Shifts a byte into the pointer. -/
def shift (slave : Slave) (value : UInt8) : Slave :=
  { slave with pointer := (slave.pointer <<< 8) ||| value.toUInt16 }

/-- The slave after a byte written to it, `position` bytes into the transfer. -/
def write (slave : Slave) (position : Nat) (value : UInt8) : Slave :=
  if position < slave.width then slave.shift value else slave.store value

/-- The slave after its address has been sent for a write. -/
def rewind (slave : Slave) : Slave := { slave with pointer := 0 }

end Slave

end TwoWire.Sim
