import Mathlib
import TwoWire.Proofs.Sim.History

/-!
# Books on the simulated controller

What goes through the receive FIFO, booked step by step along a history: the bytes that arrive,
preloaded or returned by the bus, and those that are taken out. `Controller.Fetches` says what one
word adds to the FIFO and to the reads noted, `Step.Fits.pending` and `Step.Fits.total` what one
step does; the books of a whole history follow by induction.

* `session_invariants` — at every moment of a session from power-on: phases are open only inside
  transactions, the books balance, and a word is refused for one reason only
-/

namespace TwoWire.Sim

open Log (Recorder)

/-- The bytes that a transfer read. -/
def Transfer.readLength : Transfer → Nat
  | .write .. => 0
  | .read _ length => length

namespace Controller

variable {c next last : Controller}

/-- The total length of the reads noted. -/
def readTotal (c : Controller) : Nat := (c.transfers.map Transfer.readLength).sum

/-- What the bus returns to a word: to a count, the bytes that it asks the open read for. -/
def returned (c : Controller) (word : TxWord) : List UInt8 :=
  match c.phase with
  | .counting addr =>
    if word.isStart then [] else Slave.answer c.slaves[addr]? [.read word.payload.toNat]
  | .idle | .writing .. => []

/-! ## Words -/

/-- These bytes, and nothing else, have come into the receive FIFO, by reads that are noted. -/
structure Fetches (bytes : List UInt8) (before after : Controller) : Prop where
  pending : after.rx.toList = before.rx.toList ++ bytes
  total : after.readTotal = before.readTotal + bytes.length

theorem fetches_nil (hrx : next.rx = c.rx) (htotal : next.readTotal = c.readTotal) :
    Fetches [] c next :=
  ⟨by rw [hrx, List.append_nil], htotal⟩

theorem Fetches.trans_nil {bytes : List UInt8} (h : Fetches bytes c next)
    (h' : Fetches [] next last) : Fetches bytes c last := by
  refine ⟨?_, ?_⟩
  · rw [h'.pending, List.append_nil, h.pending]
  · rw [h'.total, List.length_nil, Nat.add_zero, h.total]

/-- To end an open write is to end nothing that was read. -/
theorem readTotal_of_begun (h : next.transfers = c.begun) : next.readTotal = c.readTotal := by
  have hopen : (c.openTransfer.map Transfer.readLength).sum = 0 := by
    unfold openTransfer
    split
    · rfl
    · rfl
  rw [readTotal, h, begun, List.map_append, List.sum_append, hopen]
  rfl

/-- A START returns nothing, not even in place of a count. -/
theorem returned_of_isStart {word : TxWord} (hstart : word.isStart = true) :
    c.returned word = [] := by
  unfold returned
  split
  · rw [if_pos hstart]
  · rfl
  · rfl

theorem fetches_taken {word : TxWord} (h : Taken c word next) :
    Fetches (c.returned word) c next := by
  cases h with
  | openRead hstart hended | openWrite hstart hended =>
    rw [returned_of_isStart hstart]
    exact fetches_nil rfl (readTotal_of_begun hended)
  | byte hdata hphase =>
    simp only [returned, hphase]
    exact fetches_nil rfl rfl
  | count hdata hphase =>
    simp only [returned, hphase, hdata, Bool.false_eq_true, ↓reduceIte]
    refine ⟨Fifo.toList_append _ _, ?_⟩
    rw [readTotal, transfers, Trail.toList_push, List.map_append, List.sum_append,
      Slave.length_answer]
    rfl

/-- **What a word returns goes into the receive FIFO, and a read of that length is noted.** -/
theorem fetches_accept {word : TxWord} (h : c.accept word = .ok next) :
    Fetches (c.returned word) c next := by
  obtain ⟨taken, htaken, ⟨-, rfl⟩ | ⟨-, rfl⟩⟩ := accept_cases h
  · exact fetches_taken htaken
  · obtain ⟨ended, hstop, hended⟩ := endTransaction_eq taken
    refine (fetches_taken htaken).trans_nil ?_
    rw [hstop]
    exact fetches_nil rfl (readTotal_of_begun hended)

end Controller

/-! ## Steps -/

namespace Step

/-- What the bus returns in a step. -/
def returns (c : Controller) : Step → List UInt8
  | .shown (.write .half offset bits) => if offset = Offset.txFifo then c.returned ⟨bits⟩ else []
  | _ => []

/-- What comes into the receive FIFO in a step: preloaded bytes, or what the bus returns. -/
def arrivals (c : Controller) : Step → List UInt8
  | .given (.preload bytes) => bytes
  | step => step.returns c

/-- What a step takes out of the receive FIFO, if that is not empty. -/
def pops (c : Controller) : Step → List UInt8
  | .shown (.read .byte offset value) =>
    if offset = Offset.rxFifo ∧ c.rx.isEmpty = false then [value] else []
  | _ => []

variable {c next : Controller} {step : Step} {width : Width} {offset : Nat} {value : width.Value}

/-- Reading anything but the receive FIFO leaves that alone. -/
theorem rx_read_of_ne (hne : (width, offset) ≠ (.byte, Offset.rxFifo))
    (h : c.read width offset = .ok (value, next)) : next.rx = c.rx := by
  rcases Controller.read_cases h with rfl | ⟨haccess, -⟩ | rfl
  · exact (Controller.quiet_polled c).2
  · exact absurd haccess hne
  · rfl

/-- What a reading takes out was the first byte in the receive FIFO. -/
theorem pending_read (h : c.read width offset = .ok (value, next)) :
    pops c (.shown (.read width offset value)) ++ next.rx.toList = c.rx.toList := by
  by_cases haccess : (width, offset) = (.byte, Offset.rxFifo)
  · obtain ⟨rfl, rfl⟩ := Prod.mk.inj haccess
    have hread := h.symm.trans (Controller.read_rxFifo c)
    cases hrx : c.rx.toList with
    | nil =>
      -- Reading an empty FIFO gives a zero that never came in.
      have hempty : c.rx.isEmpty = true := (Fifo.isEmpty_iff _).mpr hrx
      rw [Fifo.pop?_of_toList_nil hrx] at hread
      obtain ⟨-, rfl⟩ := Prod.mk.inj (Except.ok.inj hread)
      simp only [pops, hempty, Bool.true_eq_false, and_false, ↓reduceIte]
      exact hrx
    | cons first more =>
      have hempty : c.rx.isEmpty = false := by
        rw [← Bool.not_eq_true, Fifo.isEmpty_iff, hrx]
        exact List.cons_ne_nil first more
      obtain ⟨rest, hpop, hmore⟩ := Fifo.pop?_of_toList_cons hrx
      rw [hpop] at hread
      obtain ⟨rfl, rfl⟩ := Prod.mk.inj (Except.ok.inj hread)
      simp only [pops, hempty, and_self, ↓reduceIte]
      exact congrArg (value :: ·) hmore
  · have hnone : pops c (.shown (.read width offset value)) = [] := by
      unfold pops
      split
      · next heq =>
        obtain ⟨rfl, rfl, -⟩ := Event.read.inj (Step.shown.inj heq)
        exact if_neg fun hpop => haccess (by rw [hpop.1])
      · rfl
    rw [hnone, rx_read_of_ne haccess h]
    rfl

/-- Readings note no transfer. -/
theorem readTotal_read (h : c.read width offset = .ok (value, next)) :
    next.readTotal = c.readTotal := by
  rcases Controller.read_cases h with rfl | ⟨-, rx, access, rfl⟩ | rfl
  · show c.polled.readTotal = c.readTotal
    rw [Controller.readTotal, Controller.transfers_polled]
    rfl
  · rfl
  · rfl

theorem fetches_write (h : c.write width offset value = .ok next) :
    Controller.Fetches (returns c (.shown (.write width offset value))) c next := by
  rcases Controller.write_cases h with ⟨word, hword, haccept⟩ | ⟨rfl, _, _, _, access, rfl⟩ |
    ⟨haccess, outputs, access, rfl⟩
  · rw [hword]
    exact Controller.fetches_accept haccept
  · exact Controller.fetches_nil rfl rfl
  · obtain ⟨rfl, rfl⟩ := Prod.mk.inj haccess
    exact Controller.fetches_nil rfl rfl

/-- **One step keeps the books of the receive FIFO**: first in, first out. -/
theorem Fits.pending (h : step.Fits c) :
    step.pops c ++ (step.next c).rx.toList = c.rx.toList ++ step.arrivals c := by
  cases step with
  | given command =>
    have hupdate : ∀ addr f, (c.updateSlave addr f).rx.toList = c.rx.toList ++ [] := by
      intro addr f
      rw [Controller.updateSlave_eq, List.append_nil]
    cases command with
    | preload bytes => exact c.toList_preload bytes
    | setRegisters addr register bytes => exact hupdate addr _
    | latch addr armed => exact hupdate addr _
    | bench | attach | getRegisters | setStuck | clear | accesses | transfers | txWords | scene =>
      exact (List.append_nil _).symm
  | shown event =>
    cases event with
    | read width offset value =>
      obtain ⟨next, hread⟩ := h
      rw [next_read hread, pending_read hread]
      exact (List.append_nil _).symm
    | write width offset value =>
      obtain ⟨next, hwrite⟩ := h
      rw [next_write hwrite]
      exact (fetches_write hwrite).pending
    | sleep | log | call => exact (List.append_nil _).symm

/-- **One step keeps the books of the reads noted.** -/
theorem Fits.total (h : step.Fits c) (hclear : step ≠ .given .clear) :
    (step.next c).readTotal = c.readTotal + (step.returns c).length := by
  cases step with
  | given command =>
    have hupdate : ∀ addr f, (c.updateSlave addr f).readTotal = c.readTotal := by
      intro addr f
      rw [Controller.updateSlave_eq]
      rfl
    cases command with
    | clear => exact absurd rfl hclear
    | setRegisters addr register bytes => exact hupdate addr _
    | latch addr armed => exact hupdate addr _
    | bench | attach | getRegisters | preload | setStuck | accesses | transfers | txWords | scene =>
      rfl
  | shown event =>
    cases event with
    | read width offset value =>
      obtain ⟨next, hread⟩ := h
      rw [next_read hread, readTotal_read hread]
      rfl
    | write width offset value =>
      obtain ⟨next, hwrite⟩ := h
      rw [next_write hwrite]
      exact (fetches_write hwrite).total
    | sleep | log | call => rfl

/-- Steps that fit lead from one reachable state to another. -/
theorem Fits.reachable (h : step.Fits c) (hc : c.Reachable) : (step.next c).Reachable := by
  cases step with
  | given command =>
    cases command with
    | attach addr width => exact hc.attach addr width
    | setRegisters addr register bytes => exact hc.setRegisters addr register bytes
    | latch addr armed => exact hc.addLatch addr armed
    | preload bytes => exact hc.preload bytes
    | setStuck stuck => exact hc.setStuck stuck
    | clear => exact hc.clear
    | bench | getRegisters | accesses | transfers | txWords | scene => exact hc
  | shown event =>
    cases event with
    | read width offset value =>
      obtain ⟨next, hread⟩ := h
      rw [next_read hread]
      exact hc.read hread
    | write width offset value =>
      obtain ⟨next, hwrite⟩ := h
      rw [next_write hwrite]
      exact hc.write hwrite
    | sleep | log | call => exact hc

end Step

/-! ## Histories -/

/-- What the steps of a history book, in order. -/
def booked (book : Controller → Step → List UInt8) : Controller → List Step → List UInt8
  | _, [] => []
  | c, step :: rest => book c step ++ booked book (step.next c) rest

variable {c : Controller} {steps : List Step}

/-- **What was taken out and what is pending is what was there and what has arrived**, in order. -/
theorem Follows.pending (h : Follows c steps) :
    booked Step.pops c steps ++ (after c steps).rx.toList
      = c.rx.toList ++ booked Step.arrivals c steps := by
  induction steps generalizing c with
  | nil => exact (List.append_nil _).symm
  | cons step rest ih =>
    obtain ⟨hstep, hrest⟩ := h
    show (step.pops c ++ booked Step.pops (step.next c) rest)
        ++ (after (step.next c) rest).rx.toList
      = c.rx.toList ++ (step.arrivals c ++ booked Step.arrivals (step.next c) rest)
    rw [List.append_assoc, ih hrest, ← List.append_assoc, hstep.pending, List.append_assoc]

theorem Follows.total (h : Follows c steps) (hclear : .given .clear ∉ steps) :
    (after c steps).readTotal = c.readTotal + (booked Step.returns c steps).length := by
  induction steps generalizing c with
  | nil => rfl
  | cons step rest ih =>
    obtain ⟨hstep, hrest⟩ := h
    have hne : step ≠ .given .clear := (List.ne_of_not_mem_cons hclear).symm
    show (after (step.next c) rest).readTotal
      = c.readTotal + (step.returns c ++ booked Step.returns (step.next c) rest).length
    rw [ih hrest (List.not_mem_of_not_mem_cons hclear), hstep.total hne, List.length_append,
      Nat.add_assoc]

theorem Follows.reachable (h : Follows c steps) (hc : c.Reachable) :
    (after c steps).Reachable := by
  induction steps generalizing c with
  | nil => exact hc
  | cons step rest ih => exact ih h.2 (h.1.reachable hc)

/--
**At every moment of a session from power-on, the controller is in order.**

Wherever the history of the session is cut, with scenes set, direct accesses made and requests
served, broken off or faulted, the rest of it fits the controller there, and

* a phase is open only inside a transaction;
* the bytes taken out of the receive FIFO, followed by those still in it, are the bytes preloaded
  and returned by the bus, in the order in which they came;
* the reads noted are as long as what the bus returned, unless they were cleared in between;
* a word would be refused just if it came without START while no phase is open.
-/
theorem session_invariants {bench : SimBench} {txLatency stopLatency : Nat}
    (hnew : controllerOf bench = .ofLatency txLatency stopLatency)
    (commands : List (Command × Nat)) :
    let start := controllerOf bench
    let runs := play Command.perform bench commands
    let steps := history commands runs
    after start steps = controllerOf (lastBench bench runs)
      ∧ ∀ before rest, steps = before ++ rest →
        let c := after start before
        Follows c rest
        ∧ (c.phase ≠ .idle → c.inTransaction = true)
        ∧ booked Step.pops start before ++ c.rx.toList = booked Step.arrivals start before
        ∧ (.given .clear ∉ before → c.readTotal = (booked Step.returns start before).length)
        ∧ ∀ bits, (∃ cause, c.write .half Offset.txFifo bits = .error cause)
          ↔ TxWord.isStart ⟨bits⟩ = false ∧ c.phase = .idle := by
  intro start runs steps
  obtain ⟨hfollows, hafter⟩ := session_follows bench commands
  refine ⟨hafter, fun before rest hsplit => ?_⟩
  intro c
  have hcut : Follows start (before ++ rest) := hsplit ▸ hfollows
  obtain ⟨hbefore, hrest⟩ := follows_append.mp hcut
  have hstart : start.Reachable := by
    simp only [start, hnew]
    exact .powerOn txLatency stopLatency
  have hpending := hbefore.pending
  have hrx : start.rx.toList = [] := by
    simp only [start, hnew]
    rfl
  rw [hrx, List.nil_append] at hpending
  refine ⟨hrest, fun hopen => ?_, hpending, fun hclear => ?_, fun bits => ?_⟩
  · have hframed := (hbefore.reachable hstart).framed
    cases hin : c.inTransaction with
    | true => rfl
    | false => exact absurd (hframed hin) hopen
  · have htotal : start.readTotal = 0 := by
      simp only [start, hnew]
      rfl
    rw [hbefore.total hclear, htotal, Nat.zero_add]
  · exact Controller.accept_error_iff

/-- A read where no slave is, with the count and STOP in one word; then a count comes too late. -/
theorem absent_slave_booked :
    let bench : SimBench := .ofParts (.ofParts .standard (.ofLatency 1 2) .empty) {} none
    let word (bits : UInt16) : Command × Nat :=
      (.bench (.engine (.store .half Offset.txFifo bits)), 1)
    let pop : Command × Nat := (.bench (.engine (.load .byte Offset.rxFifo)), 1)
    let commands := [(.preload [1, 2], 0), word 0x141, word 0xFE03, pop, pop, pop, word 3]
    let start := controllerOf bench
    let runs := play Command.perform bench commands
    let steps := history commands runs
    let c := controllerOf (lastBench bench runs)
    start = .ofLatency 1 2
      ∧ booked Step.pops start steps = [1, 2, 0xFF]
      ∧ [1, 2, 0xFF] ++ c.rx.toList = booked Step.arrivals start steps
      ∧ c.readTotal = (booked Step.returns start steps).length
      ∧ ∃ cause, c.write .half Offset.txFifo 3 = .error cause := by
  intro bench word pop commands start runs steps c
  have hnew : start = .ofLatency 1 2 := rfl
  have hpops : booked Step.pops start steps = [1, 2, 0xFF] := by cbv
  obtain ⟨hafter, hcut⟩ := session_invariants hnew commands
  obtain ⟨-, -, hpending, htotal, hrefused⟩ := hcut steps [] (List.append_nil _).symm
  rw [hafter] at hpending htotal hrefused
  refine ⟨hnew, hpops, hpops ▸ hpending, htotal ?_, (hrefused 3).mpr ⟨by cbv, by cbv⟩⟩
  intro hclear
  obtain ⟨played, hmem, heq⟩ := exists_of_given_mem_history hclear
  have hother : ∀ played ∈ commands, played.1 ≠ .clear := by decide
  exact hother played hmem heq

end TwoWire.Sim
