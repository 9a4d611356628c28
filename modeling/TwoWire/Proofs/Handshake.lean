import TwoWire.Proofs.EngineTrace
import TwoWire.Proofs.Words
import TwoWire.Sim.Script

/-!
# The handshake

What a successful transfer shows on the registers, told in terms of its legs and without the moves:
the bus is awaited and the receive FIFO emptied, each leg is queued and its bytes are collected, and
the end is awaited. `serve_handshake` is the main statement. It holds over any registers, whatever
their readings are.
-/

namespace TwoWire

open Event

/-- Bytes are taken out of the receive FIFO, each after waiting for it. -/
def Collected : List UInt8 → List Event → Prop
  | [], trace => trace = []
  | value :: rest, trace => ∃ waiting more, Awaited .rxData waiting ∧ Collected rest more
    ∧ trace = waiting ++ takeByte value :: more

namespace Leg

/--
What a leg shows. A write queues its address and its bytes. A read queues its address and its
count, waits until both are gone, and collects as many bytes as it asked for.
-/
def Carried (addr : UInt8) (last : Bool) : Leg → List UInt8 → List Event → Prop
  | write bytes, received, trace => received = []
    ∧ trace = queue (.start addr .write) :: (TxWord.ofBytes bytes last).map queue
  | read count, received, trace => received.length = count
    ∧ ∃ waiting collected, Awaited .txEmpty waiting ∧ Collected received collected
      ∧ trace = queue (.start addr .read) :: queue (.closing (UInt8.ofNat count) last)
        :: (waiting ++ collected)

/-- What legs show one after another; only the last one stops the bus. -/
def CarriedAll (addr : UInt8) : List Leg → List UInt8 → List Event → Prop
  | [], received, trace => received = [] ∧ trace = []
  | leg :: rest, received, trace => ∃ received₁ received₂ trace₁ trace₂,
    leg.Carried addr rest.isEmpty received₁ trace₁ ∧ CarriedAll addr rest received₂ trace₂
      ∧ received = received₁ ++ received₂ ∧ trace = trace₁ ++ trace₂

end Leg

/-- How a transfer ends: one that ends in a write waits for the transmit FIFO first. -/
def Concluded : Direction → List Event → Prop
  | .write, trace => ∃ sent free, Awaited .txEmpty sent ∧ Awaited .busIdle free
    ∧ trace = sent ++ free
  | .read, trace => Awaited .busIdle trace

/--
The trace of a successful transfer: a free bus, an empty transmit FIFO and an empty receive FIFO,
then the legs, then the end.
-/
def Handshake (addr : UInt8) (legs : List Leg) (received : List UInt8) (trace : List Event) :
    Prop :=
  ∃ free sent drained carried concluded,
    Awaited .busIdle free ∧ Awaited .txEmpty sent ∧ Drained drained
      ∧ Leg.CarriedAll addr legs received carried
      ∧ Concluded (Leg.lastDirection legs) concluded
      ∧ trace = free ++ sent ++ drained ++ carried ++ concluded

/-! ## From moves to legs -/

theorem showsAll_await {flag : Flag} {received : List UInt8} {trace : List Event}
    {rest : List Move} : Move.ShowsAll (.await flag :: rest) received trace
      ↔ ∃ waiting more, Awaited flag waiting ∧ Move.ShowsAll rest received more
        ∧ trace = waiting ++ more := by
  constructor
  · rintro ⟨_, r, t₁, t₂, ⟨rfl, hwait⟩, hrest, rfl, rfl⟩
    exact ⟨t₁, t₂, hwait, hrest, rfl⟩
  · rintro ⟨t₁, t₂, hwait, hrest, rfl⟩
    exact ⟨[], received, t₁, t₂, ⟨rfl, hwait⟩, hrest, rfl, rfl⟩

theorem showsAll_receive {count : Nat} {received : List UInt8} {trace : List Event} :
    Move.ShowsAll (Move.receive count) received trace
      ↔ received.length = count ∧ Collected received trace := by
  induction count generalizing received trace with
  | zero =>
    constructor
    · rintro ⟨rfl, rfl⟩
      exact ⟨rfl, rfl⟩
    · rintro ⟨hlen, hcollected⟩
      obtain rfl := List.eq_nil_of_length_eq_zero hlen
      exact ⟨rfl, hcollected⟩
  | succ count ih =>
    rw [Move.receive, showsAll_await]
    constructor
    · rintro ⟨waiting, _, hwait, ⟨_, r, _, more, ⟨value, rfl, rfl⟩, hmore, rfl, rfl⟩, rfl⟩
      obtain ⟨rfl, hcollected⟩ := ih.mp hmore
      exact ⟨rfl, waiting, more, hwait, hcollected, rfl⟩
    · rintro ⟨hlen, hcollected⟩
      cases received with
      | nil => exact absurd hlen (Nat.succ_ne_zero count).symm
      | cons value rest =>
        obtain ⟨waiting, more, hwait, hmore, htrace⟩ := hcollected
        have hrest : rest.length = count := by simpa using hlen
        exact ⟨waiting, takeByte value :: more, hwait,
          ⟨[value], rest, [takeByte value], more, ⟨value, rfl, rfl⟩, ih.mpr ⟨hrest, hmore⟩, rfl,
            rfl⟩, htrace⟩

theorem showsAll_leg {addr : UInt8} {last : Bool} {leg : Leg} {received : List UInt8}
    {trace : List Event}
    (h : Move.ShowsAll (Move.pushAll (leg.words addr last) ++ leg.collect) received trace) :
    leg.Carried addr last received trace := by
  obtain ⟨_, r, _, t, hwords, hcollect, rfl, rfl⟩ := Move.showsAll_append.mp h
  obtain ⟨rfl, rfl⟩ := Move.showsAll_pushAll.mp hwords
  cases leg with
  | write bytes =>
    obtain ⟨rfl, rfl⟩ := hcollect
    exact ⟨rfl, by simp [Leg.words]⟩
  | read count =>
    obtain ⟨waiting, collected, hwait, hcollected, rfl⟩ := showsAll_await.mp hcollect
    obtain ⟨hlen, hcollected⟩ := showsAll_receive.mp hcollected
    exact ⟨hlen, waiting, collected, hwait, hcollected, rfl⟩

theorem showsAll_frame {addr : UInt8} {legs : List Leg} {received : List UInt8}
    {trace : List Event} (h : Move.ShowsAll (Leg.frame addr legs) received trace) :
    Leg.CarriedAll addr legs received trace := by
  induction legs generalizing received trace with
  | nil => exact h
  | cons leg rest ih =>
    obtain ⟨r₁, r₂, t₁, t₂, hleg, hrest, rfl, rfl⟩ := Move.showsAll_append.mp h
    exact ⟨r₁, r₂, t₁, t₂, showsAll_leg hleg, ih hrest, rfl, rfl⟩

theorem showsAll_closing {dir : Direction} {received : List UInt8} {trace : List Event}
    (h : Move.ShowsAll (Move.closing dir) received trace) :
    received = [] ∧ Concluded dir trace := by
  cases dir with
  | write =>
    obtain ⟨sent, _, hsent, hmore, rfl⟩ := showsAll_await.mp h
    obtain ⟨rfl, hfree⟩ := Move.showsAll_singleton.mp hmore
    exact ⟨rfl, sent, _, hsent, hfree, rfl⟩
  | read => exact Move.showsAll_singleton.mp h

/-- The moves of a transfer show the handshake of its legs. -/
theorem showsAll_layout {addr : UInt8} {legs : List Leg} {received : List UInt8}
    {trace : List Event} (hne : legs ≠ [])
    (h : Move.ShowsAll (Leg.layout addr legs) received trace) :
    Handshake addr legs received trace := by
  rw [Leg.layout, if_neg (by simpa using hne)] at h
  obtain ⟨_, _, _, concluded, hstart, hclosing, rfl, rfl⟩ := Move.showsAll_append.mp h
  obtain ⟨rfl, hconcluded⟩ := showsAll_closing hclosing
  obtain ⟨_, _, _, carried, hopening, hframe, rfl, rfl⟩ := Move.showsAll_append.mp hstart
  obtain ⟨free, _, hfree, hmore, rfl⟩ := showsAll_await.mp hopening
  obtain ⟨sent, _, hsent, hdrain, rfl⟩ := showsAll_await.mp hmore
  obtain ⟨rfl, hdrained⟩ := Move.showsAll_singleton.mp hdrain
  refine ⟨free, sent, _, carried, concluded, hfree, hsent, hdrained, ?_, hconcluded, by simp⟩
  simpa using showsAll_frame hframe

/-! ## Moves that queue no word -/

namespace Move

theorem push_not_mem_opening (word : TxWord) : .push word ∉ opening := by
  simp [opening]

theorem push_not_mem_closing (dir : Direction) (word : TxWord) : .push word ∉ closing dir := by
  cases dir <;> simp [closing]

theorem push_not_mem_receive (count : Nat) (word : TxWord) : .push word ∉ receive count := by
  induction count with
  | zero => simp [receive]
  | succ count ih => simpa [receive] using ih

end Move

theorem Leg.push_not_mem_collect (leg : Leg) (word : TxWord) : .push word ∉ leg.collect := by
  cases leg with
  | write bytes => simp [collect]
  | read count => simpa [collect] using Move.push_not_mem_receive count word

/-! ## Control bits -/

namespace Leg

/-- The words of legs one after another; STOP goes with the last one. -/
def allWords (addr : UInt8) : List Leg → List TxWord
  | [] => []
  | leg :: rest => leg.words addr rest.isEmpty ++ allWords addr rest

/-- The words of a leg after its address. -/
def wordCount : Leg → Nat
  | write bytes => bytes.length
  | read _ => 1

theorem map_isStart_words (addr : UInt8) (last : Bool) (leg : Leg) :
    (leg.words addr last).map TxWord.isStart = true :: List.replicate leg.wordCount false := by
  cases leg with
  | write bytes => simp [words, wordCount, TxWord.map_isStart_ofBytes]
  | read count => simp [words, wordCount]

theorem map_isStop_words (addr : UInt8) (last : Bool) {leg : Leg} (h : leg ≠ write []) :
    (leg.words addr last).map TxWord.isStop = List.replicate leg.wordCount false ++ [last] := by
  cases leg with
  | write bytes =>
    match bytes, h with
    | b :: rest, _ =>
      simp [words, wordCount, TxWord.map_isStop_ofBytes, List.replicate_succ]
  | read count => simp [words, wordCount]

theorem length_words (addr : UInt8) (last : Bool) (leg : Leg) :
    (leg.words addr last).length = leg.wordCount + 1 := by
  cases leg <;> simp [words, wordCount]

/-- START goes with the addresses. -/
theorem map_isStart_allWords (addr : UInt8) (legs : List Leg) :
    (allWords addr legs).map TxWord.isStart
      = legs.flatMap fun leg => true :: List.replicate leg.wordCount false := by
  induction legs with
  | nil => rfl
  | cons leg rest ih => rw [allWords, List.map_append, map_isStart_words, ih, List.flatMap_cons]

/-- STOP goes with the very last word. -/
theorem map_isStop_allWords (addr : UInt8) {legs : List Leg} (hne : legs ≠ [])
    (full : ∀ leg ∈ legs, leg ≠ write []) :
    (allWords addr legs).map TxWord.isStop
      = List.replicate ((allWords addr legs).length - 1) false ++ [true] := by
  match legs, hne with
  | [leg], _ =>
    rw [allWords, allWords, List.append_nil, length_words,
      map_isStop_words _ _ (full leg List.mem_cons_self)]
    simp
  | leg :: next :: rest, _ =>
    obtain ⟨hleg, hrest⟩ := List.forall_mem_cons.mp full
    have ih := map_isStop_allWords addr (by simp) hrest
    -- the words of this leg all come without STOP, and there are words after them
    have hlen : 0 < (allWords addr (next :: rest)).length := by
      rw [allWords, List.length_append, length_words]
      omega
    rw [allWords, List.map_append, map_isStop_words _ _ hleg, ih, List.length_append, length_words,
      Nat.add_sub_assoc hlen, ← List.replicate_append_replicate, List.replicate_succ']
    simp

/-- Operations that are not empty make legs that are not empty. -/
theorem ne_write_nil_of_mem_ofOperations {ops : List Operation}
    (full : ∀ op ∈ ops, op.isEmpty = false) : ∀ leg ∈ ofOperations ops, leg ≠ write [] := by
  induction ops with
  | nil => simp [ofOperations]
  | cons op rest ih =>
    obtain ⟨hop, hrest⟩ := List.forall_mem_cons.mp full
    have hlegs := ih hrest
    -- only the first leg changes, and what is joined to it is not empty
    rw [ofOperations]
    revert hlegs
    generalize ofOperations rest = legs
    intro hlegs
    unfold consOperation
    split <;> simp_all [Operation.isEmpty, Operation.length]

end Leg

theorem Collected.queued {received : List UInt8} {trace : List Event}
    (h : Collected received trace) : queued trace = [] := by
  induction received generalizing trace with
  | nil => rw [h, queued_nil]
  | cons value rest ih =>
    obtain ⟨waiting, more, hwait, hmore, rfl⟩ := h
    rw [queued_append, hwait.queued, queued_takeByte, ih hmore, List.nil_append]

theorem Leg.Carried.queued {addr : UInt8} {last : Bool} {leg : Leg} {received : List UInt8}
    {trace : List Event} (h : leg.Carried addr last received trace) :
    queued trace = leg.words addr last := by
  cases leg with
  | write bytes =>
    obtain ⟨-, rfl⟩ := h
    rw [queued_queue, queued_map_queue, words]
  | read count =>
    obtain ⟨-, waiting, collected, hwait, hcollected, rfl⟩ := h
    rw [queued_queue, queued_queue, queued_append, hwait.queued, hcollected.queued,
      List.append_nil, words]

theorem Leg.CarriedAll.queued {addr : UInt8} {legs : List Leg} {received : List UInt8}
    {trace : List Event} (h : Leg.CarriedAll addr legs received trace) :
    queued trace = Leg.allWords addr legs := by
  induction legs generalizing received trace with
  | nil =>
    obtain ⟨-, rfl⟩ := h
    rfl
  | cons leg rest ih =>
    obtain ⟨_, _, _, _, hleg, hrest, -, rfl⟩ := h
    rw [queued_append, hleg.queued, ih hrest, Leg.allWords]

theorem Concluded.queued {dir : Direction} {trace : List Event} (h : Concluded dir trace) :
    queued trace = [] := by
  cases dir with
  | write =>
    obtain ⟨sent, free, hsent, hfree, rfl⟩ := h
    rw [queued_append, hsent.queued, hfree.queued, List.append_nil]
  | read => exact Awaited.queued h

theorem Handshake.queued {addr : UInt8} {legs : List Leg} {received : List UInt8}
    {trace : List Event} (h : Handshake addr legs received trace) :
    queued trace = Leg.allWords addr legs := by
  obtain ⟨free, sent, drained, carried, concluded, hfree, hsent, hdrained, hcarried, hconcluded,
    rfl⟩ := h
  simp only [queued_append, hfree.queued, hsent.queued, hdrained.queued, hcarried.queued,
    hconcluded.queued, List.append_nil, List.nil_append]

/-! ## Requests -/

namespace Engine

open Log (Logger)

variable {β κ : Type} [RegisterBlock β] [Logger κ]

/-- A request with operations has legs. -/
theorem legs_ne_nil {request : Request} (h : request.operations ≠ []) : request.legs ≠ [] := by
  intro hnil
  rw [Request.legs, Leg.ofOperations_eq, List.map_eq_nil_iff] at hnil
  exact h (by rw [← Operation.flatten_runs request.operations, hnil, List.flatten_nil])

/-- A request that succeeds has been accepted, and its trace is the handshake of its legs. -/
theorem handshake_of_serve {request : Request} (hne : request.operations ≠ [])
    {engine : Engine β κ} {allowance : Nat} {received : List UInt8}
    (hok : (serve request engine allowance).outcome = .ok ⟨.ok (), received⟩) :
    request.addr ≤ maxAddress ∧ (∀ op ∈ request.operations, op.isEmpty = false)
      ∧ request.legs.all Leg.fits = true
      ∧ Handshake request.addr request.legs received
        (accesses (serve request engine allowance).events) := by
  have hserved : (serve request).Ensures engine fun ev reply _ => reply.result = .ok () →
      request.addr ≤ maxAddress ∧ (∀ op ∈ request.operations, op.isEmpty = false)
        ∧ request.legs.all Leg.fits = true
        ∧ Handshake request.addr request.legs reply.received (accesses ev) := by
    refine ensures_serve engine request (fun _ _ => nofun) fun moves hplan => ?_
    obtain ⟨-, haddr, hfull, hfits, rfl⟩ := (plan_eq_ok_iff engine).mp hplan
    refine (ensures_performAll engine _).mono fun ev reply _ h hresult => ?_
    rw [hresult] at h
    exact ⟨haddr, by simpa using hfull, hfits, showsAll_layout (legs_ne_nil hne) h⟩
  exact hserved allowance ⟨.ok (), received⟩ hok rfl

/--
**A transfer that succeeds keeps to the handshake, whatever the registers do.**

Its register accesses are exactly those that the handshake of its legs asks for; the first leg of a
transfer to registers is, or begins with, the sub-address (`Request.legs_readRegisters`,
`Request.legs_writeRegisters`). START goes with the first word of each leg and with no other, STOP
with the last word of all and with no other.
-/
theorem serve_handshake {request : Request} (hne : request.operations ≠ [])
    {engine : Engine β κ} {allowance : Nat} {received : List UInt8}
    (hok : (serve request engine allowance).outcome = .ok ⟨.ok (), received⟩) :
    let trace := accesses (serve request engine allowance).events
    Handshake request.addr request.legs received trace
      ∧ (queued trace).map TxWord.isStart
        = request.legs.flatMap (fun leg => true :: List.replicate leg.wordCount false)
      ∧ (queued trace).map TxWord.isStop
        = List.replicate ((queued trace).length - 1) false ++ [true] := by
  obtain ⟨-, hfull, -, h⟩ := handshake_of_serve hne hok
  refine ⟨h, ?_, ?_⟩
  · rw [h.queued, Leg.map_isStart_allWords]
  · rw [h.queued]
    exact Leg.map_isStop_allWords _ (legs_ne_nil hne) (Leg.ne_write_nil_of_mem_ofOperations hfull)

/-- Two registers are read over registers that are idle first and then have two bytes ready. -/
theorem two_registers_handshake :
    let engine : Engine Sim.ScriptedRegisters Unit :=
      ⟨.standard, true, ⟨[0xC0, 0xC0, 0xC0, 0x80], [0x11, 0x22]⟩, ()⟩
    let request := Request.readRegisters 0x48 (.byte 7) [0, 0]
    request.operations ≠ []
      ∧ (serve request engine 40).outcome = .ok ⟨.ok (), [0x11, 0x22]⟩
      ∧ Handshake 0x48 [.write [7], .read 2] [0x11, 0x22]
        (accesses (serve request engine 40).events)
      ∧ queued (accesses (serve request engine 40).events)
        = [⟨0x190⟩, ⟨0x07⟩, ⟨0x191⟩, ⟨0x202⟩] :=
  have hne : (Request.readRegisters 0x48 (.byte 7) [0, 0]).operations ≠ [] := nofun
  ⟨hne, rfl, (serve_handshake hne rfl).1, rfl⟩

end Engine

end TwoWire
