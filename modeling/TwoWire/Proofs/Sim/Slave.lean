import TwoWire.Proofs.Leg
import TwoWire.Sim.Slave

/-!
# Slaves, leg by leg

What a slave does with a whole leg, said at once and not byte by byte. A write leg sets the pointer
from its first bytes and stores the others; a read leg reads consecutive registers, each of which
has its latches fire first. `Slave.serve` answers several legs.

That the bytes of a leg taken one after another come to the same is `writeMany_zero` and
`readMany_eq_readRun`. The latter needs that no register is read twice, so it holds up to as many
bytes as there are registers.
-/

namespace TwoWire.Sim

/-- Consecutive register numbers; the number after the last one is zero. -/
def span (register : UInt16) : Nat → List UInt16
  | 0 => []
  | count + 1 => register :: span (register + 1) count

/-- The latch after a read of each of some registers. -/
def Latch.countOver (registers : List UInt16) (latch : Latch) : Latch :=
  if latch.register ∈ registers then { latch with readsLeft := latch.readsLeft - 1 } else latch

namespace Slave

/-- The register file after a read of `register` with the given latches armed. -/
def fire (latches : List Latch) (file : RegisterFile) (register : UInt16) : RegisterFile :=
  (latches.filter (·.fires register)).foldl
    (fun file latch => file.set register (file.value register ||| latch.mask)) file

/-- The pointer after bytes were shifted into it, the oldest ones out at the top. -/
def shiftIn (pointer : UInt16) (bytes : List UInt8) : UInt16 :=
  bytes.foldl (fun pointer byte => (pointer <<< 8) ||| byte.toUInt16) pointer

/--
The slave after a write leg. Its first bytes, as many as the width says, are shifted into a pointer
that was zero; the others are stored from there on.
-/
def writeRun (slave : Slave) (bytes : List UInt8) : Slave :=
  let pointer := shiftIn 0 (bytes.take slave.width)
  let stored := bytes.drop slave.width
  { slave with
    file := slave.file.setAll pointer stored
    pointer := pointer + UInt16.ofNat stored.length }

/--
The bytes that a read leg gives, and the slave after it. All latches of the registers read count
down, and those that were due set their bits before the register gives its value.
-/
def readRun (slave : Slave) (count : Nat) : List UInt8 × Slave :=
  let registers := span slave.pointer count
  let file := registers.foldl (fire slave.latches) slave.file
  (registers.map file.value,
    { slave with
      file
      pointer := slave.pointer + UInt16.ofNat count
      latches := slave.latches.map (·.countOver registers) })

/-- The bytes that a leg gives, and the slave after it. -/
def carry (slave : Slave) : Leg → List UInt8 × Slave
  | .write bytes => ([], slave.writeRun bytes)
  | .read count => slave.readRun count

/-- The bytes that several legs give, and the slave after them. -/
def serve (slave : Slave) : List Leg → List UInt8 × Slave
  | [] => ([], slave)
  | leg :: rest =>
    let (values, slave) := slave.carry leg
    let (more, slave) := slave.serve rest
    (values ++ more, slave)

/-- The bytes that legs read where there may be no slave; then they are all ones. -/
def answer (slave : Option Slave) (legs : List Leg) : List UInt8 :=
  match slave with
  | none => List.replicate (Leg.readTotal legs) 0xFF
  | some slave => (slave.serve legs).1

/-! ## Writing -/

/-- The slave after bytes written to it, the first of them `position` bytes into the transfer. -/
def writeMany (slave : Slave) (position : Nat) : List UInt8 → Slave
  | [] => slave
  | byte :: rest => (slave.write position byte).writeMany (position + 1) rest

theorem succ_add_ofNat (register : UInt16) (count : Nat) :
    register + 1 + UInt16.ofNat count = register + UInt16.ofNat (count + 1) := by
  rw [UInt16.ofNat_add, UInt16.add_assoc, UInt16.add_comm 1]
  rfl

/-- Once the pointer is complete, bytes are stored. -/
theorem writeMany_of_width_le {slave : Slave} {position : Nat} (h : slave.width ≤ position)
    (bytes : List UInt8) :
    slave.writeMany position bytes
      = { slave with
          file := slave.file.setAll slave.pointer bytes
          pointer := slave.pointer + UInt16.ofNat bytes.length } := by
  induction bytes generalizing slave position with
  | nil => simp [writeMany, RegisterFile.setAll]
  | cons byte rest ih =>
    have hwrite : slave.write position byte = slave.store byte := if_neg (by omega)
    have hwidth : (slave.store byte).width ≤ position + 1 := Nat.le_succ_of_le h
    rw [writeMany, hwrite, ih hwidth]
    simp only [store, RegisterFile.setAll, List.length_cons, succ_add_ofNat]

/-- Until the pointer is complete, bytes are shifted into it. -/
theorem writeMany_eq {slave : Slave} {position : Nat} (bytes : List UInt8) :
    slave.writeMany position bytes
      = let pointer := shiftIn slave.pointer (bytes.take (slave.width - position))
        let stored := bytes.drop (slave.width - position)
        { slave with
          file := slave.file.setAll pointer stored
          pointer := pointer + UInt16.ofNat stored.length } := by
  induction bytes generalizing slave position with
  | nil => simp [writeMany, shiftIn, RegisterFile.setAll]
  | cons byte rest ih =>
    by_cases h : position < slave.width
    · -- one pointer byte less is missing after this one
      have hwrite : slave.write position byte = slave.shift byte := if_pos h
      obtain ⟨missing, hmissing⟩ : ∃ missing, slave.width - position = missing + 1 :=
        ⟨slave.width - position - 1, by omega⟩
      have hnext : (slave.shift byte).width - (position + 1) = missing := by
        simp only [shift]
        omega
      rw [writeMany, hwrite, ih, hnext, hmissing]
      rfl
    · rw [writeMany_of_width_le (by omega), Nat.sub_eq_zero_of_le (by omega)]
      rfl

/-- The bytes of a write leg, taken one after another. -/
theorem writeMany_zero (slave : Slave) (bytes : List UInt8) :
    slave.rewind.writeMany 0 bytes = slave.writeRun bytes := by
  rw [writeMany_eq]
  rfl

/-! ## Reading -/

theorem exists_of_mem_span {register other : UInt16} {count : Nat}
    (h : other ∈ span register count) : ∃ i < count, other = register + UInt16.ofNat i := by
  induction count generalizing register with
  | zero => simp [span] at h
  | succ count ih =>
    rcases List.mem_cons.mp h with rfl | h
    · exact ⟨0, Nat.succ_pos _, by simp⟩
    · obtain ⟨i, hi, rfl⟩ := ih h
      exact ⟨i + 1, by omega, succ_add_ofNat _ _⟩

/-- A span comes back to its first register after all others. -/
theorem not_mem_span_succ {register : UInt16} {count : Nat} (h : count < 65536) :
    register ∉ span (register + 1) count := by
  intro hmem
  obtain ⟨i, hi, heq⟩ := exists_of_mem_span hmem
  rw [succ_add_ofNat] at heq
  have hnat := congrArg UInt16.toNat heq
  have hlt := register.toNat_lt
  simp only [UInt16.toNat_add, UInt16.toNat_ofNat'] at hnat
  omega

theorem fire_eq_of_ne {latches : List Latch} {register other : UInt16} (h : other ≠ register)
    (file : RegisterFile) :
    fire (latches.map (·.count register)) file other = fire latches file other := by
  have hfilter : (latches.map (·.count register)).filter (·.fires other)
      = latches.filter (·.fires other) := by
    induction latches with
    | nil => rfl
    | cons latch rest ih =>
      rw [List.map_cons, List.filter_cons, List.filter_cons, ih]
      by_cases hl : latch.register = register
      · have hne : register ≠ other := Ne.symm h
        simp [Latch.count, Latch.fires, hl, hne]
      · simp [Latch.count, hl]
  rw [fire, fire, hfilter]

theorem foldl_fire_congr {latches : List Latch} {register : UInt16} {registers : List UInt16}
    (h : register ∉ registers) (file : RegisterFile) :
    registers.foldl (fire (latches.map (·.count register))) file
      = registers.foldl (fire latches) file := by
  induction registers generalizing file with
  | nil => rfl
  | cons other rest ih =>
    obtain ⟨hne, hrest⟩ : register ≠ other ∧ register ∉ rest := by simpa using h
    rw [List.foldl_cons, List.foldl_cons, fire_eq_of_ne (Ne.symm hne), ih hrest]

/-- Latches of one register leave the others alone. -/
theorem getElem?_fire_of_ne {latches : List Latch} {register other : UInt16}
    (h : register ≠ other) (file : RegisterFile) :
    (fire latches file other)[register]? = file[register]? := by
  unfold fire
  generalize latches.filter (·.fires other) = due
  induction due generalizing file with
  | nil => rfl
  | cons latch rest ih => rw [List.foldl_cons, ih, RegisterFile.set_other _ _ h]

theorem value_foldl_fire (latches : List Latch) {register : UInt16} {registers : List UInt16}
    (h : register ∉ registers) (file : RegisterFile) :
    (registers.foldl (fire latches) file).value register = file.value register := by
  induction registers generalizing file with
  | nil => rfl
  | cons other rest ih =>
    obtain ⟨hne, hrest⟩ : register ≠ other ∧ register ∉ rest := by simpa using h
    rw [List.foldl_cons, ih hrest, RegisterFile.value, getElem?_fire_of_ne hne, RegisterFile.value]

theorem countOver_count {latch : Latch} {register : UInt16} {registers : List UInt16}
    (h : register ∉ registers) :
    (latch.count register).countOver registers = latch.countOver (register :: registers) := by
  by_cases hl : latch.register = register
  · simp [Latch.count, Latch.countOver, hl, h]
  · simp [Latch.count, Latch.countOver, hl]

/-- **The bytes of a read leg, taken one after another.** -/
theorem readMany_eq_readRun (slave : Slave) {count : Nat} (h : count ≤ 65536) :
    slave.readMany count = slave.readRun count := by
  induction count generalizing slave with
  | zero => simp [readMany, readRun, span, Latch.countOver]
  | succ count ih =>
    have hnew : slave.pointer ∉ span (slave.pointer + 1) count := not_mem_span_succ (by omega)
    have hlatches : (slave.latches.map (·.count slave.pointer)).map
        (·.countOver (span (slave.pointer + 1) count))
        = slave.latches.map (·.countOver (span slave.pointer (count + 1))) := by
      rw [List.map_map]
      exact List.map_congr_left fun latch _ => countOver_count hnew
    -- the first register is not read again, so its value is still there at the end
    have hvalue := value_foldl_fire slave.latches hnew
      (fire slave.latches slave.file slave.pointer)
    simp only [readMany, read, ih _ (Nat.le_of_succ_le h), readRun, hlatches,
      foldl_fire_congr hnew, succ_add_ofNat]
    simp only [span, List.foldl_cons, List.map_cons]
    rw [hvalue]
    rfl

/-! ## Several legs -/

theorem length_span (register : UInt16) (count : Nat) : (span register count).length = count := by
  induction count generalizing register with
  | zero => rfl
  | succ count ih => rw [span, List.length_cons, ih]

theorem length_serve (slave : Slave) (legs : List Leg) :
    (slave.serve legs).1.length = Leg.readTotal legs := by
  induction legs generalizing slave with
  | nil => rfl
  | cons leg rest ih =>
    rw [serve, List.length_append, ih]
    cases leg <;> simp [carry, readRun, length_span, Leg.readTotal]

/-- As many bytes come as are read, slave or not. -/
theorem length_answer (slave : Option Slave) (legs : List Leg) :
    (answer slave legs).length = Leg.readTotal legs := by
  cases slave with
  | none => exact List.length_replicate
  | some slave => exact slave.length_serve legs

theorem answer_nil (slave : Option Slave) : answer slave [] = [] := by cases slave <;> rfl

/-- The first leg is answered, and then the others by the slave that it left. -/
theorem answer_cons (slave : Option Slave) (leg : Leg) (rest : List Leg) :
    answer slave (leg :: rest)
      = answer slave [leg] ++ answer (slave.map fun slave => (slave.serve [leg]).2) rest := by
  cases slave with
  | none => cases leg <;> simp [answer, Leg.readTotal]
  | some slave => simp [answer, serve]

end Slave

end TwoWire.Sim
