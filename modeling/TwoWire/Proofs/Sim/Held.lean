import Mathlib
import TwoWire.Proofs.BrokenOff
import TwoWire.Proofs.Sim.Delivery

/-!
# When the simulated bus stays held

A simulated controller is in a transaction from a word with START to a word with STOP, and nothing
but transmit words changes that (`inTransaction_of_replays`). So what a request leaves in the
transmit FIFO decides whether it leaves the bus held.

The main statement is `Engine.failure_leaves`: a request that fails has queued nothing, or its whole
frame, or as a transaction its frame up to the count of a read that is not the last leg; and that
last case is the only way in which a request leaves a bus held that was free.
-/

namespace TwoWire

open Event

namespace TxWord

/-- The bus is held after a word, if it was `held` before: START takes it and STOP lets it go. -/
def holds (held : Bool) (word : TxWord) : Bool := !word.isStop && (word.isStart || held)

theorem foldl_holds_of_isStop {words : List TxWord} {last : TxWord} (h : last.isStop = true)
    (held : Bool) : (words ++ [last]).foldl holds held = false := by
  simp [holds, h]

/-- After the words of a whole frame the bus is free. -/
theorem foldl_holds_of_map_isStop {words : List TxWord} {before : List Bool}
    (h : words.map isStop = before ++ [true]) (held : Bool) : words.foldl holds held = false := by
  obtain ⟨front, last, rfl, -, hlast⟩ := List.map_eq_append_iff.mp h
  obtain ⟨word, rfl, hword⟩ := List.map_eq_singleton_iff.mp hlast
  exact foldl_holds_of_isStop hword held

end TxWord

/-- After the count of a read that is not the last leg the bus is held. -/
theorem CutAfterRead.foldl_holds {addr : UInt8} {legs : List Leg} {words : List TxWord}
    (h : CutAfterRead addr legs words) (held : Bool) : words.foldl TxWord.holds held = true := by
  obtain ⟨before, count, after, -, -, rfl, -⟩ := h
  simp [TxWord.holds]

namespace Sim.Controller

open RegisterBlock (Replays replays_append)

variable {c next after : Controller}

/-! ## One word, and all words of a trace -/

/-- A transmit word takes the bus, lets it go, or leaves it as it is. -/
theorem inTransaction_accept {word : TxWord} (hok : c.accept word = .ok next) :
    next.inTransaction = word.holds c.inTransaction := by
  obtain ⟨taken, htaken, ⟨hstop, rfl⟩ | ⟨hstop, rfl⟩⟩ := accept_cases hok
  · cases htaken with
    | openRead hstart | openWrite hstart => simp [TxWord.holds, hstop, hstart]
    | byte hdata | count hdata => simp [TxWord.holds, hstop, hdata, offered, note]
  · obtain ⟨ended, hidle, -⟩ := endTransaction_eq taken
    simp [TxWord.holds, hstop, hidle]

theorem inTransaction_read {width : Width} {offset : Nat} {value : width.Value}
    (hok : c.read width offset = .ok (value, next)) : next.inTransaction = c.inTransaction := by
  rcases read_cases hok with rfl | ⟨-, rx, access, rfl⟩ | rfl
  · exact (quiet_polled c).1.inTransaction
  · rfl
  · rfl

theorem inTransaction_write {width : Width} {offset : Nat} {value : width.Value}
    (hok : c.write width offset value = .ok next) :
    next.inTransaction
      = (queued [.write width offset value]).foldl TxWord.holds c.inTransaction := by
  rcases write_cases hok with ⟨word, hword, haccept⟩ | ⟨rfl, _, _, _, access, rfl⟩ |
    ⟨haccess, outputs, access, rfl⟩
  · rw [hword, inTransaction_accept haccept, queued_queue]
    rfl
  · rfl
  · obtain ⟨rfl, rfl⟩ := Prod.mk.inj haccess
    rfl

/-- **The words of a trace tell whether the bus is held after it.** -/
theorem inTransaction_of_replays {trace : List Event} (h : Replays c trace after) :
    after.inTransaction = (queued trace).foldl TxWord.holds c.inTransaction := by
  induction trace generalizing c with
  | nil => exact congrArg inTransaction h
  | cons event rest ih =>
    cases event with
    | read width offset value =>
      obtain ⟨next, hread, hrest⟩ := h
      have hqueued : queued (.read width offset value :: rest) = queued rest := rfl
      rw [hqueued, ih hrest, inTransaction_read hread]
    | write width offset value =>
      obtain ⟨next, hwrite, hrest⟩ := h
      rw [← List.singleton_append, queued_append, List.foldl_append, ih hrest,
        inTransaction_write hwrite]
    | sleep | log | call => exact ih h

end Sim.Controller

namespace Engine

open Log (Logger)
open RegisterBlock (Replays replays_append replays_accesses)
open Sim (Controller)

section AnyRegisters

variable {β κ : Type} [RegisterBlock β] [Logger κ] {engine : Engine β κ} {request : Request}
  {allowance : Nat} {reply : Reply TransferError}

/-- Without operations nothing is accessed. -/
theorem accesses_eq_nil_of_serve (hnone : request.operations = [])
    (hreplied : (serve request engine allowance).outcome = .ok reply) :
    accesses (serve request engine allowance).events = [] := by
  have hserved : (serve request).Ensures engine fun ev _ _ => accesses ev = [] := by
    refine ensures_serve engine request (fun _ _ => rfl) fun moves hplan => ?_
    obtain ⟨-, -, -, -, rfl⟩ := (plan_eq_ok_iff engine).mp hplan
    rw [Request.legs, hnone]
    exact Proc.ensures_pure rfl
  exact hserved allowance reply hreplied

/--
A request that has been answered has queued nothing; or it has been opened, and then the last word
queued has STOP or the transfer is stranded.
-/
theorem stopped_of_serve (hreplied : (serve request engine allowance).outcome = .ok reply) :
    queued (accesses (serve request engine allowance).events) = []
      ∨ (∃ opened rest, Opened opened
          ∧ accesses (serve request engine allowance).events = opened ++ rest)
        ∧ ((∃ before, (queued (accesses (serve request engine allowance).events)).map
              TxWord.isStop = before ++ [true])
          ∨ ∃ error, reply.result = .error error ∧ Stranded request.addr request.legs error
              (accesses (serve request engine allowance).events)) := by
  obtain ⟨result, received⟩ := reply
  by_cases hne : request.operations = []
  · rw [accesses_eq_nil_of_serve hne hreplied]
    exact Or.inl rfl
  · cases result with
    | ok =>
      obtain ⟨-, -, hstops⟩ := serve_handshake hne hreplied
      obtain ⟨-, -, -, free, sent, drained, carried, concluded, hfree, hsent, hdrained, -, -,
        htrace⟩ := handshake_of_serve hne hreplied
      have hopened : Opened (free ++ sent ++ drained) :=
        ⟨free, sent, drained, hfree, hsent, hdrained, rfl⟩
      exact Or.inr ⟨⟨_, carried ++ concluded, hopened, by rw [htrace, List.append_assoc]⟩,
        Or.inl ⟨_, hstops⟩⟩
    | error error =>
      rcases interrupted_of_serve hreplied with hrefused | ⟨hfull, hinterrupted⟩
      · rw [hrefused]
        exact Or.inl rfl
      · rcases hinterrupted.cases with hnone | ⟨hopened, hall | hstranded⟩
        · exact Or.inl hnone
        · have hstops := Leg.map_isStop_allWords request.addr (legs_ne_nil hne)
            (Leg.ne_write_nil_of_mem_ofOperations hfull)
          rw [← hall] at hstops
          exact Or.inr ⟨hopened, Or.inl ⟨_, hstops⟩⟩
        · exact Or.inr ⟨hopened, Or.inr ⟨error, rfl, hstranded⟩⟩

end AnyRegisters

/-- A transfer is opened only on a bus that is not held. -/
theorem inTransaction_of_opened {c after : Controller} {opened rest : List Event}
    (h : Opened opened) (hr : Replays c (opened ++ rest) after) : c.inTransaction = false := by
  obtain ⟨free, sent, drained, hfree, -, -, rfl⟩ := h
  rw [List.append_assoc, List.append_assoc] at hr
  obtain ⟨idle, hidle, -⟩ := replays_append.mp hr
  obtain ⟨hquiet, -, -⟩ := Controller.quiet_awaited hfree hidle
  rw [← hquiet.inTransaction]
  exact (Controller.free_of_awaited hfree hidle).2.1

/--
**A request that fails leaves whole frames, except that a transaction may be cut after a read.**

Over any registers, a request that fails has queued nothing, or its whole frame up to the word with
STOP; a transaction may also have queued its frame up to the count of a read that is not its last
leg (`Request.MayLeave`). Over a simulated controller, whatever its state, a request that has been
answered leaves the bus held if and only if it was held before, or the request is a transaction that
timed out in such a read (`Stranded`), so that no STOP has been queued.
-/
theorem failure_leaves (request : Request) (allowance : Nat) :
    (∀ {β κ : Type} [RegisterBlock β] [Logger κ] (engine : Engine β κ) (error : TransferError)
        (received : List UInt8),
      (serve request engine allowance).outcome = .ok ⟨.error error, received⟩ →
        request.MayLeave (queued (accesses (serve request engine allowance).events)))
      ∧ ∀ {κ : Type} [Logger κ] (engine : Engine Controller κ) (reply : Reply TransferError),
        (serve request engine allowance).outcome = .ok reply →
          ((serve request engine allowance).state.registers.inTransaction = true
            ↔ engine.registers.inTransaction = true
              ∨ request.isTransaction = true ∧ ∃ error, reply.result = .error error
                ∧ Stranded request.addr request.legs error
                  (accesses (serve request engine allowance).events)) := by
  refine ⟨fun engine error received hfailed => mayLeave_of_serve hfailed,
    fun engine reply hreplied => ?_⟩
  have hr : Replays engine.registers (accesses (serve request engine allowance).events)
      (serve request engine allowance).state.registers :=
    replays_accesses.mpr (serve_replays request engine allowance)
  have hheld := Controller.inTransaction_of_replays hr
  constructor
  · intro hafter
    rcases stopped_of_serve hreplied with hnone | ⟨-, ⟨before, hstops⟩ | ⟨error, herror, hcut⟩⟩
    · rw [hnone] at hheld
      exact Or.inl (hheld.symm.trans hafter)
    · rw [TxWord.foldl_holds_of_map_isStop hstops] at hheld
      exact absurd (hheld ▸ hafter) nofun
    · obtain ⟨_, _, _, hlegs, hmore, -⟩ := hcut.cutAfterRead
      exact Or.inr ⟨Request.isTransaction_of_legs_eq hlegs hmore, error, herror, hcut⟩
  · rintro (hbefore | ⟨-, error, -, hcut⟩)
    · rcases stopped_of_serve hreplied with hnone | ⟨⟨opened, rest, hopened, htrace⟩, -⟩
      · rw [hheld, hnone]
        exact hbefore
      · rw [htrace] at hr
        exact absurd (inTransaction_of_opened hopened hr ▸ hbefore) nofun
    · rw [hheld]
      exact hcut.cutAfterRead.foldl_holds _

/-- A read of one byte and then a write, with time for one poll only: the bus stays held. -/
theorem cut_transaction_holds_bus :
    let engine : Engine Controller Unit :=
      ⟨{ Config.standard with wait := .bounded 1 1 }, true, Controller.ofLatency 3 0, ()⟩
    let request := Request.transaction 0x48 [.read [0], .write [1]]
    let served := serve request engine 40
    served.outcome = .ok ⟨.error (.timeout .txEmpty), []⟩
      ∧ queued (accesses served.events) = [.start 0x48 .read, .data 1]
      ∧ request.MayLeave (queued (accesses served.events))
      ∧ engine.registers.inTransaction = false
      ∧ served.state.registers.inTransaction = true
      ∧ ∃ error, Stranded 0x48 [.read 1, .write [1]] error (accesses served.events) := by
  intro engine request served
  have hfailed : served.outcome = .ok ⟨.error (.timeout .txEmpty), []⟩ := by cbv
  have hheld : served.state.registers.inTransaction = true := by cbv
  obtain ⟨hleaves, hholds⟩ := failure_leaves request 40
  obtain hbefore | ⟨-, error, -, hcut⟩ := (hholds engine _ hfailed).mp hheld
  · exact absurd hbefore (by decide)
  · exact ⟨hfailed, by cbv, hleaves engine _ _ hfailed, rfl, hheld, error, hcut⟩

end Engine

end TwoWire
