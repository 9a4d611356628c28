import TwoWire.Proofs.Sim.Slave
import TwoWire.Proofs.Trace
import TwoWire.Proofs.Words
import TwoWire.Sim.Controller

/-!
# States of the simulated controller

`Reachable` is every state that the controller can get into: the scene may be changed at any time,
and any access that the controller knows may be made in any order. In all of them a phase is open
only inside a transaction (`Reachable.framed`), so a controller that reports a free bus has no phase
open.

`accept_cases`, `read_cases` and `write_cases` say all that a word, a reading and a write can do; what
these preserve is told case by case from there. The other lemmas say what a transmit word does to
the three things that a transfer leaves behind: the address phases (`begun`, which counts an open
write in), the slaves and the receive FIFO.
-/

namespace TwoWire.Sim

/-! ## Slaves by address -/

section Modify

variable {slaves : Std.ExtTreeMap UInt8 Slave} {addr : UInt8}

theorem modify_modify (f g : Slave → Slave) :
    (slaves.modify addr f).modify addr g = slaves.modify addr fun slave => g (f slave) := by
  refine Std.ExtTreeMap.ext_getElem? fun other => ?_
  simp only [Std.ExtTreeMap.getElem?_modify]
  split <;> simp [Option.map_map, Function.comp_def]

theorem modify_self : (slaves.modify addr fun slave => slave) = slaves := by
  refine Std.ExtTreeMap.ext_getElem? fun other => ?_
  rw [Std.ExtTreeMap.getElem?_modify]
  split
  · next h => rw [Option.map_id', Std.LawfulEqCmp.eq_of_compare h]
  · rfl

theorem getElem?_modify_of_ne {other : UInt8} (h : other ≠ addr) (f : Slave → Slave) :
    (slaves.modify addr f)[other]? = slaves[other]? := by
  rw [Std.ExtTreeMap.getElem?_modify, if_neg]
  exact fun heq => h (Std.LawfulEqCmp.eq_of_compare heq).symm

theorem modify_comm {other : UInt8} (h : other ≠ addr) (f g : Slave → Slave) :
    (slaves.modify addr f).modify other g = (slaves.modify other g).modify addr f := by
  refine Std.ExtTreeMap.ext_getElem? fun place => ?_
  by_cases haddr : place = addr
  · subst haddr
    rw [getElem?_modify_of_ne h.symm, Std.ExtTreeMap.getElem?_modify_self,
      Std.ExtTreeMap.getElem?_modify_self, getElem?_modify_of_ne h.symm]
  · rw [getElem?_modify_of_ne haddr]
    by_cases hother : place = other
    · subst hother
      rw [Std.ExtTreeMap.getElem?_modify_self, Std.ExtTreeMap.getElem?_modify_self,
        getElem?_modify_of_ne haddr]
    · rw [getElem?_modify_of_ne hother, getElem?_modify_of_ne hother,
        getElem?_modify_of_ne haddr]

end Modify

namespace Controller

variable {c next : Controller} {addr : UInt8}

theorem updateSlave_eq (c : Controller) (addr : UInt8) (f : Slave → Slave) :
    c.updateSlave addr f = { c with slaves := c.slaves.modify addr f } := by
  have hslaves : (c.updateSlave addr f).slaves = c.slaves.modify addr f := by
    refine Std.ExtTreeMap.ext_getElem? fun other => ?_
    rw [Std.ExtTreeMap.getElem?_modify, updateSlave]
    split
    -- without a slave there, there is nothing to change
    · next h => split <;> simp_all
    · next slave h =>
      rw [setSlave, Std.ExtTreeMap.getElem?_insert, h]
      rfl
  rw [← hslaves]
  unfold updateSlave
  split <;> rfl

/-- Preloaded bytes go behind those that are in the receive FIFO. -/
@[simp] theorem toList_preload (c : Controller) (bytes : List UInt8) :
    (c.preload bytes).rx.toList = c.rx.toList ++ bytes :=
  Fifo.toList_append c.rx bytes

/-- The bytes of a read go into the receive FIFO. -/
theorem fetch_eq (c : Controller) (addr : UInt8) {count : Nat} (h : count ≤ 65536) :
    c.fetch addr count = { c with
      slaves := c.slaves.modify addr fun slave => (slave.carry (.read count)).2
      rx := c.rx.append (Slave.answer c.slaves[addr]? [.read count]) } := by
  have hread : ∀ slave : Slave, slave.readMany count = slave.carry (.read count) :=
    fun slave => slave.readMany_eq_readRun h
  have hfetch : c.fetch addr count =
      { c.updateSlave addr fun slave => (slave.carry (.read count)).2 with
        rx := c.rx.append (Slave.answer c.slaves[addr]? [.read count]) } := by
    unfold fetch updateSlave
    split
    · next hnone => simp [hnone, Slave.answer, Leg.readTotal]
    · next slave hslave => simp [hslave, Slave.answer, Slave.serve, hread, setSlave]
  rw [hfetch, updateSlave_eq]

/-! ## Phases -/

/-- An open write, as the transfer that it is going to be. -/
def openTransfer (c : Controller) : List Transfer :=
  match c.phase with
  | .writing addr bytes => [.write addr bytes.toList]
  | _ => []

/-- The address phases ended, and an open write. -/
def begun (c : Controller) : List Transfer := c.transfers ++ c.openTransfer

/-- Closing the phase ends an open write and leaves everything else alone. -/
theorem closePhase_eq (c : Controller) :
    ∃ ended : Trail Transfer, c.closePhase = { c with phase := .idle, ended }
      ∧ ended.toList = c.begun := by
  unfold closePhase begun openTransfer
  cases c.phase with
  | writing addr bytes => exact ⟨_, rfl, by simp [transfers]⟩
  | idle | counting => exact ⟨_, rfl, by simp [transfers]⟩

/-- STOP closes the phase and lets the bus go; it is busy a while longer. -/
theorem endTransaction_eq (c : Controller) :
    ∃ ended : Trail Transfer, c.endTransaction
        = { c with phase := .idle, ended, inTransaction := false, busyHold := c.stopLatency }
      ∧ ended.toList = c.begun := by
  obtain ⟨ended, hclose, hended⟩ := closePhase_eq c
  exact ⟨ended, by rw [endTransaction, hclose], hended⟩

/-- What was begun stays so when it ends. -/
theorem begun_endTransaction (c : Controller) : c.endTransaction.begun = c.begun := by
  obtain ⟨ended, hstop, hended⟩ := endTransaction_eq c
  rw [hstop]
  simp [begun, transfers, openTransfer, hended]

/-! ## Transmit words -/

/-- The controller once a word has come into its transmit FIFO. -/
def offered (c : Controller) (word : TxWord) : Controller :=
  { c.note (.tx word) with txPending := c.txLatency }

/-- All that a word can do before its STOP. An address byte ends a write that is open. -/
inductive Taken (c : Controller) (word : TxWord) : Controller → Prop
  | openRead {ended : Trail Transfer} (hstart : word.isStart = true)
    (hended : ended.toList = c.begun) :
    Taken c word { c.offered word with
      phase := .counting (word.payload >>> 1), inTransaction := true, ended }
  | openWrite {ended : Trail Transfer} (hstart : word.isStart = true)
    (hended : ended.toList = c.begun) :
    Taken c word { c.offered word with
      phase := .writing (word.payload >>> 1) .empty, inTransaction := true, ended
      slaves := c.slaves.modify (word.payload >>> 1) Slave.rewind }
  | byte {addr : UInt8} {bytes : Trail UInt8} (hdata : word.isStart = false)
    (hphase : c.phase = .writing addr bytes) :
    Taken c word { c.offered word with
      phase := .writing addr (bytes.push word.payload)
      slaves := c.slaves.modify addr fun slave => slave.write bytes.size word.payload }
  | count {addr : UInt8} (hdata : word.isStart = false) (hphase : c.phase = .counting addr) :
    Taken c word { c.offered word with
      phase := .idle
      slaves := c.slaves.modify addr fun slave => (slave.carry (.read word.payload.toNat)).2
      rx := c.rx.append (Slave.answer c.slaves[addr]? [.read word.payload.toNat])
      ended := c.ended.push (.read addr word.payload.toNat) }

theorem taken_openPhase {word : TxWord} (hstart : word.isStart = true) :
    Taken c word ((c.offered word).openPhase word.payload) := by
  obtain ⟨ended, hclose, hended⟩ := closePhase_eq (c.offered word)
  simp only [openPhase, hclose, updateSlave_eq]
  split
  · exact .openRead hstart hended
  · exact .openWrite hstart hended

theorem taken_takePayload {word : TxWord} (hdata : word.isStart = false)
    (htaken : (c.offered word).takePayload word.payload = some next) : Taken c word next := by
  have hcount : word.payload.toNat ≤ 65536 :=
    Nat.le_trans (Nat.le_of_lt word.payload.toNat_lt) (by decide)
  unfold takePayload at htaken
  split at htaken
  · cases htaken
  · next addr bytes hphase =>
    obtain rfl := Option.some.inj htaken
    rw [updateSlave_eq]
    exact .byte hdata hphase
  · next addr hphase =>
    obtain rfl := Option.some.inj htaken
    rw [fetch_eq _ _ hcount]
    exact .count hdata hphase

/-- **All that a transmit word can do**: it is taken, and with STOP the transaction ends after it. -/
theorem accept_cases {word : TxWord} (hok : c.accept word = .ok next) :
    ∃ taken, Taken c word taken
      ∧ (word.isStop = false ∧ next = taken
        ∨ word.isStop = true ∧ next = taken.endTransaction) := by
  have hoffered : { c.note (.tx word) with txPending := c.txLatency } = c.offered word := rfl
  obtain ⟨taken, htaken, hnext⟩ : ∃ taken, Taken c word taken
      ∧ (if word.isStop then taken.endTransaction else taken) = next := by
    simp only [accept, hoffered] at hok
    cases hstart : word.isStart with
    | true =>
      simp only [hstart, ↓reduceIte, Except.ok.injEq] at hok
      exact ⟨_, taken_openPhase hstart, hok⟩
    | false =>
      simp only [hstart, Bool.false_eq_true, ↓reduceIte] at hok
      split at hok
      · cases hok
      · next taken htaken => exact ⟨taken, taken_takePayload hstart htaken, Except.ok.inj hok⟩
  refine ⟨taken, htaken, ?_⟩
  cases hstop : word.isStop with
  | false => exact .inl ⟨rfl, by simpa [hstop] using hnext.symm⟩
  | true => exact .inr ⟨rfl, by simpa [hstop] using hnext.symm⟩

/-- **A word is refused just if it comes without START while no phase is open.** -/
theorem accept_error_iff {word : TxWord} :
    (∃ cause, c.accept word = .error cause) ↔ word.isStart = false ∧ c.phase = .idle := by
  constructor
  · rintro ⟨cause, h⟩
    unfold accept at h
    cases hstart : word.isStart with
    | true =>
      simp only [hstart, ↓reduceIte] at h
      cases h
    | false =>
      simp only [hstart, Bool.false_eq_true, ↓reduceIte] at h
      split at h
      · next hnone =>
        refine ⟨rfl, ?_⟩
        unfold takePayload at hnone
        split at hnone
        · next hidle => exact hidle
        · cases hnone
        · cases hnone
      · cases h
  · rintro ⟨hdata, hidle⟩
    refine ⟨.wordOutsideTransaction word, ?_⟩
    simp [accept, note, hdata, takePayload, hidle]

/-- The address of a write opens a phase of writing. -/
theorem accept_start_write (haddr : addr ≤ maxAddress)
    (h : c.accept (.start addr .write) = .ok next) :
    next.phase = .writing addr .empty ∧ next.transfers = c.begun ∧ next.rx = c.rx
      ∧ next.slaves = c.slaves.modify addr Slave.rewind := by
  obtain ⟨ended, hclose, hended⟩ :=
    closePhase_eq { c.note (.tx (.start addr .write)) with txPending := c.txLatency }
  simp only [accept, openPhase, hclose, TxWord.isStart_start, TxWord.isStop_start,
    TxWord.payload_start_shift haddr, TxWord.payload_start_bit, updateSlave_eq, ↓reduceIte,
    reduceCtorEq, Bool.false_eq_true, Except.ok.injEq] at h
  subst h
  exact ⟨rfl, hended, rfl, rfl⟩

/-- The address of a read leaves the count to come. -/
theorem accept_start_read (haddr : addr ≤ maxAddress)
    (h : c.accept (.start addr .read) = .ok next) :
    next.phase = .counting addr ∧ next.transfers = c.begun ∧ next.rx = c.rx
      ∧ next.slaves = c.slaves := by
  obtain ⟨ended, hclose, hended⟩ :=
    closePhase_eq { c.note (.tx (.start addr .read)) with txPending := c.txLatency }
  simp only [accept, openPhase, hclose, TxWord.isStart_start, TxWord.isStop_start,
    TxWord.payload_start_shift haddr, TxWord.payload_start_bit, ↓reduceIte,
    Bool.false_eq_true, Except.ok.injEq] at h
  subst h
  exact ⟨rfl, hended, rfl, rfl⟩

/-- A byte of a write goes to the slave. -/
theorem accept_closing_writing {byte : UInt8} {last : Bool} {bytes : Trail UInt8}
    (hphase : c.phase = .writing addr bytes) (h : c.accept (.closing byte last) = .ok next) :
    next.begun = c.transfers ++ [.write addr (bytes.toList ++ [byte])] ∧ next.rx = c.rx
      ∧ next.slaves = c.slaves.modify addr (fun slave => slave.write bytes.size byte)
      ∧ (last = false → next.phase = .writing addr (bytes.push byte)
        ∧ next.transfers = c.transfers) := by
  simp only [accept, takePayload, note, TxWord.isStart_closing, TxWord.isStop_closing,
    TxWord.payload_closing, updateSlave_eq, hphase, Bool.false_eq_true, ↓reduceIte,
    Except.ok.injEq] at h
  subst h
  cases last with
  | false => exact ⟨by simp [begun, openTransfer, transfers], rfl, rfl, fun _ => ⟨rfl, rfl⟩⟩
  | true =>
    rw [if_pos rfl, begun_endTransaction]
    refine ⟨by simp [begun, openTransfer, transfers], rfl, rfl, fun hopen => ?_⟩
    exact absurd hopen (by decide)

/-- The count of a read puts the bytes of the slave into the receive FIFO. -/
theorem accept_closing_counting {count : UInt8} {last : Bool} (hphase : c.phase = .counting addr)
    (h : c.accept (.closing count last) = .ok next) :
    next.begun = c.transfers ++ [.read addr count.toNat]
      ∧ next.rx = c.rx.append (Slave.answer c.slaves[addr]? [.read count.toNat])
      ∧ next.slaves = c.slaves.modify addr fun slave => (slave.carry (.read count.toNat)).2 := by
  have hcount : count.toNat ≤ 65536 := Nat.le_trans (Nat.le_of_lt count.toNat_lt) (by decide)
  simp only [accept, takePayload, note, TxWord.isStart_closing, TxWord.isStop_closing,
    TxWord.payload_closing, fetch_eq _ _ hcount, hphase, noteTransfer, Bool.false_eq_true,
    ↓reduceIte, Except.ok.injEq] at h
  subst h
  cases last with
  | false => exact ⟨by simp [begun, openTransfer, transfers], rfl, rfl⟩
  | true =>
    rw [if_pos rfl, begun_endTransaction]
    exact ⟨by simp [begun, openTransfer, transfers], rfl, rfl⟩

/-! ## Accesses -/

/-- **All that a reading can do.** -/
theorem read_cases {width : Width} {offset : Nat} {value : width.Value}
    (hok : c.read width offset = .ok (value, next)) :
    next = c.tick.note (.status c.currentStatus)
      ∨ ((width, offset) = (.byte, Offset.rxFifo) ∧ ∃ rx access, next = { c with rx }.note access)
      ∨ next = c := by
  unfold Controller.read at hok
  split at hok
  · split at hok
    · obtain ⟨-, rfl⟩ := Prod.mk.inj (Except.ok.inj hok)
      exact .inl rfl
    · split at hok
      · next hoffset =>
        split at hok <;> obtain ⟨-, rfl⟩ := Prod.mk.inj (Except.ok.inj hok) <;>
          exact .inr (.inl ⟨by rw [hoffset], _, _, rfl⟩)
      · split at hok
        · obtain ⟨-, rfl⟩ := Prod.mk.inj (Except.ok.inj hok)
          exact .inr (.inr rfl)
        · cases hok
  · cases hok
  · split at hok
    · obtain ⟨-, rfl⟩ := Prod.mk.inj (Except.ok.inj hok)
      exact .inr (.inr rfl)
    · cases hok

/-- **All that a write can do**: queue a word, set a control register or drive the output lines. -/
theorem write_cases {width : Width} {offset : Nat} {value : width.Value}
    (hok : c.write width offset value = .ok next) :
    (∃ word, Event.write width offset value = Event.queue word ∧ c.accept word = .ok next)
      ∨ (width = .byte ∧ ∃ controlBits txPending rxThreshold access,
        next = { c with controlBits, txPending, rxThreshold }.note access)
      ∨ ((width, offset) = (.word, Offset.outputs) ∧ ∃ outputs access,
        next = { c with outputs }.note access) := by
  unfold Controller.write at hok
  split at hok
  · split at hok
    · exact .inr (.inl ⟨rfl, _, _, _, _, (Except.ok.inj hok).symm⟩)
    · split at hok
      · exact .inr (.inl ⟨rfl, _, _, _, _, (Except.ok.inj hok).symm⟩)
      · cases hok
  · split at hok
    · next bits hoffset => exact .inl ⟨⟨bits⟩, by rw [hoffset]; rfl, hok⟩
    · cases hok
  · split at hok
    · next hoffset => exact .inr (.inr ⟨by rw [hoffset], _, _, (Except.ok.inj hok).symm⟩)
    · cases hok

/-! ## Reachable states -/

/-- A phase is open only inside a transaction. -/
def Framed (c : Controller) : Prop := c.inTransaction = false → c.phase = .idle

theorem framed_endTransaction (c : Controller) : c.endTransaction.Framed := by
  obtain ⟨ended, hstop, -⟩ := endTransaction_eq c
  rw [hstop]
  exact fun _ => rfl

theorem Framed.taken {word : TxWord} (h : c.Framed) (htaken : Taken c word next) :
    next.Framed := by
  cases htaken with
  | openRead | openWrite => exact nofun
  | byte hdata hphase =>
    -- the phase stays open, and so does the transaction that it was open in
    have hin : c.inTransaction = true := by
      cases hin : c.inTransaction with
      | true => rfl
      | false => exact absurd (hphase ▸ h hin) nofun
    exact fun hidle => absurd (hin.symm.trans hidle) nofun
  | count => exact fun _ => rfl

theorem Framed.accept {word : TxWord} (h : c.Framed) (hok : c.accept word = .ok next) :
    next.Framed := by
  obtain ⟨taken, htaken, ⟨-, rfl⟩ | ⟨-, rfl⟩⟩ := accept_cases hok
  · exact h.taken htaken
  · exact framed_endTransaction taken

theorem Framed.tick (h : c.Framed) : c.tick.Framed := by
  unfold Controller.tick
  split <;> exact h

theorem Framed.read {width : Width} {offset : Nat} {value : width.Value} (h : c.Framed)
    (hok : c.read width offset = .ok (value, next)) : next.Framed := by
  rcases read_cases hok with rfl | ⟨-, rx, access, rfl⟩ | rfl
  · exact h.tick
  · exact h
  · exact h

theorem Framed.write {width : Width} {offset : Nat} {value : width.Value} (h : c.Framed)
    (hok : c.write width offset value = .ok next) : next.Framed := by
  rcases write_cases hok with ⟨word, -, haccept⟩ | ⟨-, _, _, _, access, rfl⟩ |
    ⟨-, outputs, access, rfl⟩
  · exact h.accept haccept
  · exact h
  · exact h

/--
The states that a controller can get into. It starts at power-on; the scene may be changed, and
accesses may be made, at any time and in any order.
-/
inductive Reachable : Controller → Prop
  | powerOn (txLatency stopLatency : Nat) : Reachable (ofLatency txLatency stopLatency)
  | setLatency {c : Controller} (h : Reachable c) (txLatency stopLatency : Nat) :
    Reachable { c with txLatency, stopLatency }
  | attach {c : Controller} (h : Reachable c) (addr : UInt8) (width : Nat) :
    Reachable (c.attach addr width)
  | setRegisters {c : Controller} (h : Reachable c) (addr : UInt8) (register : UInt16)
    (bytes : List UInt8) : Reachable (c.setRegisters addr register bytes)
  | addLatch {c : Controller} (h : Reachable c) (addr : UInt8) (latch : Latch) :
    Reachable (c.addLatch addr latch)
  | preload {c : Controller} (h : Reachable c) (bytes : List UInt8) : Reachable (c.preload bytes)
  | setStuck {c : Controller} (h : Reachable c) (stuck : Bool) : Reachable (c.setStuck stuck)
  | clear {c : Controller} (h : Reachable c) : Reachable c.clear
  | read {c next : Controller} {width : Width} {offset : Nat} {value : width.Value}
    (h : Reachable c) (hok : c.read width offset = .ok (value, next)) : Reachable next
  | write {c next : Controller} {width : Width} {offset : Nat} {value : width.Value}
    (h : Reachable c) (hok : c.write width offset value = .ok next) : Reachable next

/-- **In every reachable state a phase is open only inside a transaction.** -/
theorem Reachable.framed (h : c.Reachable) : c.Framed := by
  induction h with
  | powerOn => exact fun _ => rfl
  | setLatency _ _ _ ih | attach _ _ _ ih | preload _ _ ih | setStuck _ _ ih | clear _ ih =>
    exact ih
  | setRegisters _ addr register bytes ih =>
    rw [Controller.setRegisters, updateSlave_eq]
    exact ih
  | addLatch _ addr latch ih =>
    rw [Controller.addLatch, updateSlave_eq]
    exact ih
  | read _ hok ih => exact ih.read hok
  | write _ hok ih => exact ih.write hok

end Controller

end TwoWire.Sim
