import TwoWire.Event
import TwoWire.Move

/-!
# Traces of register accesses

What the moves of a transfer show on the registers. `Awaited` is a wait that was met, `Drained` an
emptied receive FIFO; `Move.Shows` says what each move shows when it succeeds, `Move.Fails` when it
does not, and `Move.ShowsAll` joins what several moves show.
-/

namespace TwoWire

namespace Event

/-- The register accesses among some events. -/
def accesses (events : List Event) : List Event := events.filter isAccess

/-- A reading of the status register. -/
def readStatus (status : Status) : Event := .read .byte Offset.status status.bits

/-- A byte taken out of the receive FIFO. -/
def takeByte (value : UInt8) : Event := .read .byte Offset.rxFifo value

/-- A word put into the transmit FIFO. -/
def queue (word : TxWord) : Event := .write .half Offset.txFifo word.bits

/-- The words put into the transmit FIFO. -/
def queued (events : List Event) : List TxWord :=
  events.filterMap fun
    | .write .half offset bits => if offset = Offset.txFifo then some ⟨bits⟩ else none
    | _ => none

/-- The bytes taken out of the receive FIFO. -/
def taken (events : List Event) : List UInt8 :=
  events.filterMap fun
    | .read .byte offset value => if offset = Offset.rxFifo then some value else none
    | _ => none

@[simp] theorem accesses_nil : accesses [] = [] := rfl

@[simp] theorem accesses_append (a b : List Event) : accesses (a ++ b) = accesses a ++ accesses b :=
  List.filter_append ..

@[simp] theorem accesses_readStatus (s : Status) (rest : List Event) :
    accesses (readStatus s :: rest) = readStatus s :: accesses rest := rfl

@[simp] theorem accesses_takeByte (b : UInt8) (rest : List Event) :
    accesses (takeByte b :: rest) = takeByte b :: accesses rest := rfl

@[simp] theorem accesses_queue (w : TxWord) (rest : List Event) :
    accesses (queue w :: rest) = queue w :: accesses rest := rfl

@[simp] theorem accesses_log (part : Part) (level : Log.Level) (text : String)
    (rest : List Event) : accesses (.log part level text :: rest) = accesses rest := rfl

/-- A pause makes no access. -/
@[simp] theorem accesses_sleeps (part : Part) (parts : List Nat) :
    accesses (parts.map (.sleep part)) = [] := by
  simp [accesses, isAccess]

@[simp] theorem queued_nil : queued [] = [] := rfl

@[simp] theorem queued_append (a b : List Event) : queued (a ++ b) = queued a ++ queued b :=
  List.filterMap_append ..

@[simp] theorem queued_queue (w : TxWord) (rest : List Event) :
    queued (queue w :: rest) = w :: queued rest := by
  simp [queued, queue]

@[simp] theorem queued_readStatus (s : Status) (rest : List Event) :
    queued (readStatus s :: rest) = queued rest := rfl

@[simp] theorem queued_takeByte (b : UInt8) (rest : List Event) :
    queued (takeByte b :: rest) = queued rest := rfl

@[simp] theorem queued_map_queue (words : List TxWord) : queued (words.map queue) = words := by
  induction words with
  | nil => rfl
  | cons w rest ih => simp [ih]

@[simp] theorem queued_map_readStatus (readings : List Status) :
    queued (readings.map readStatus) = [] := by
  induction readings with
  | nil => rfl
  | cons s rest ih => simp [ih]

@[simp] theorem taken_nil : taken [] = [] := rfl

@[simp] theorem taken_append (a b : List Event) : taken (a ++ b) = taken a ++ taken b :=
  List.filterMap_append ..

@[simp] theorem taken_takeByte (b : UInt8) (rest : List Event) :
    taken (takeByte b :: rest) = b :: taken rest := by
  simp [taken, takeByte]

@[simp] theorem taken_readStatus (s : Status) (rest : List Event) :
    taken (readStatus s :: rest) = taken rest := rfl

@[simp] theorem taken_queue (w : TxWord) (rest : List Event) :
    taken (queue w :: rest) = taken rest := rfl

end Event

open Event

/-! ## Waits -/

/-- Readings of the status none of which shows the flag. -/
def Unmet (flag : Flag) (trace : List Event) : Prop :=
  ∃ readings : List Status, (∀ s ∈ readings, flag.holds s = false)
    ∧ trace = readings.map readStatus

/-- Readings of the status up to the first that shows the flag. -/
def Awaited (flag : Flag) (trace : List Event) : Prop :=
  ∃ unmet s, Unmet flag unmet ∧ flag.holds s = true ∧ trace = unmet ++ [readStatus s]

/-- Bytes are taken out of the receive FIFO, each after a reading that reports one. -/
def Discarded (trace : List Event) : Prop :=
  ∃ taken : List (Status × UInt8), (∀ p ∈ taken, p.1.rxEmpty = false)
    ∧ trace = taken.flatMap fun p => [readStatus p.1, takeByte p.2]

/-- Bytes are taken out of the receive FIFO until the status reports it empty. -/
def Drained (trace : List Event) : Prop :=
  ∃ discarded s, Discarded discarded ∧ s.rxEmpty = true ∧ trace = discarded ++ [readStatus s]

theorem unmet_nil (flag : Flag) : Unmet flag [] := ⟨[], by simp, rfl⟩

/-- One more reading that does not show the flag. -/
theorem Unmet.cons {flag : Flag} {trace : List Event} {s : Status} (h : Unmet flag trace)
    (hs : flag.holds s = false) : Unmet flag (readStatus s :: trace) := by
  obtain ⟨readings, hreadings, rfl⟩ := h
  exact ⟨s :: readings, List.forall_mem_cons.mpr ⟨hs, hreadings⟩, rfl⟩

theorem discarded_nil : Discarded [] := ⟨[], by simp, rfl⟩

theorem Discarded.cons {trace : List Event} {s : Status} (h : Discarded trace)
    (hs : s.rxEmpty = false) (b : UInt8) :
    Discarded (readStatus s :: takeByte b :: trace) := by
  obtain ⟨taken, htaken, rfl⟩ := h
  exact ⟨(s, b) :: taken, List.forall_mem_cons.mpr ⟨hs, htaken⟩, rfl⟩

theorem Discarded.append {a b : List Event} (ha : Discarded a) (hb : Discarded b) :
    Discarded (a ++ b) := by
  obtain ⟨xs, hxs, rfl⟩ := ha
  obtain ⟨ys, hys, rfl⟩ := hb
  refine ⟨xs ++ ys, fun p hp => ?_, (List.flatMap_append ..).symm⟩
  rcases List.mem_append.mp hp with hp | hp
  · exact hxs p hp
  · exact hys p hp

theorem Unmet.accesses {flag : Flag} {trace : List Event} (h : Unmet flag trace) :
    accesses trace = trace := by
  obtain ⟨readings, -, rfl⟩ := h
  induction readings with
  | nil => rfl
  | cons s rest ih => simpa using ih

theorem Discarded.accesses {trace : List Event} (h : Discarded trace) :
    accesses trace = trace := by
  obtain ⟨pairs, -, rfl⟩ := h
  induction pairs with
  | nil => rfl
  | cons p rest ih => simpa using ih

/-- Two accesses for each byte. -/
theorem Discarded.length_eq {trace : List Event} (h : Discarded trace) :
    trace.length = 2 * (taken trace).length := by
  obtain ⟨pairs, -, rfl⟩ := h
  induction pairs with
  | nil => rfl
  | cons pair rest ih =>
    simp only [List.flatMap_cons, List.cons_append, List.nil_append, List.length_cons,
      taken_readStatus, taken_takeByte, ih]
    omega

/-- Waiting for a flag takes no byte out. -/
theorem Unmet.taken {flag : Flag} {trace : List Event} (h : Unmet flag trace) :
    taken trace = [] := by
  obtain ⟨readings, -, rfl⟩ := h
  induction readings with
  | nil => rfl
  | cons s rest ih => simpa using ih

theorem Unmet.queued {flag : Flag} {trace : List Event} (h : Unmet flag trace) :
    queued trace = [] := by
  obtain ⟨readings, -, rfl⟩ := h
  simp

theorem Awaited.queued {flag : Flag} {trace : List Event} (h : Awaited flag trace) :
    queued trace = [] := by
  obtain ⟨unmet, s, hunmet, -, rfl⟩ := h
  simp [hunmet.queued]

theorem Discarded.queued {trace : List Event} (h : Discarded trace) : queued trace = [] := by
  obtain ⟨taken, -, rfl⟩ := h
  induction taken with
  | nil => rfl
  | cons p rest ih => simpa using ih

theorem Drained.queued {trace : List Event} (h : Drained trace) : queued trace = [] := by
  obtain ⟨_, s, hdiscarded, -, rfl⟩ := h
  rw [queued_append, hdiscarded.queued]
  rfl

namespace Move

/-! ## Moves -/

/-- What a move shows and receives when it succeeds. -/
def Shows : Move → List UInt8 → List Event → Prop
  | await flag, received, trace => received = [] ∧ Awaited flag trace
  | drain, received, trace => received = [] ∧ Drained trace
  | push word, received, trace => received = [] ∧ trace = [queue word]
  | pop, received, trace => ∃ value, received = [value] ∧ trace = [takeByte value]
  | refuse _, _, _ => False

/--
How a move fails and what it shows then. A wait that ran out reads the status once more, for the
record.
-/
def Fails : Move → TransferError → List Event → Prop
  | await flag, error, trace => error = .timeout flag.condition
    ∧ ∃ unmet s, Unmet flag unmet ∧ trace = unmet ++ [readStatus s]
  | drain, error, trace => error = .timeout .rxDrained
    ∧ ∃ discarded s, Discarded discarded ∧ trace = discarded ++ [readStatus s]
  | refuse reason, error, trace => error = reason ∧ trace = []
  | push _, _, _ | pop, _, _ => False

/-- What moves show and receive when all succeed. -/
def ShowsAll : List Move → List UInt8 → List Event → Prop
  | [], received, trace => received = [] ∧ trace = []
  | move :: rest, received, trace => ∃ received₁ received₂ trace₁ trace₂,
    move.Shows received₁ trace₁ ∧ ShowsAll rest received₂ trace₂
      ∧ received = received₁ ++ received₂ ∧ trace = trace₁ ++ trace₂

theorem showsAll_append {xs ys : List Move} {received : List UInt8} {trace : List Event} :
    ShowsAll (xs ++ ys) received trace ↔ ∃ received₁ received₂ trace₁ trace₂,
      ShowsAll xs received₁ trace₁ ∧ ShowsAll ys received₂ trace₂
        ∧ received = received₁ ++ received₂ ∧ trace = trace₁ ++ trace₂ := by
  induction xs generalizing received trace with
  | nil =>
    constructor
    · exact fun h => ⟨[], received, [], trace, ⟨rfl, rfl⟩, h, rfl, rfl⟩
    · rintro ⟨_, _, _, _, ⟨rfl, rfl⟩, h, rfl, rfl⟩
      exact h
  | cons move rest ih =>
    constructor
    · rintro ⟨r₁, r₂, t₁, t₂, hmove, hrest, rfl, rfl⟩
      obtain ⟨r₃, r₄, t₃, t₄, hxs, hys, rfl, rfl⟩ := ih.mp hrest
      exact ⟨r₁ ++ r₃, r₄, t₁ ++ t₃, t₄, ⟨r₁, r₃, t₁, t₃, hmove, hxs, rfl, rfl⟩, hys,
        by simp, by simp⟩
    · rintro ⟨_, r₄, _, t₄, ⟨r₁, r₃, t₁, t₃, hmove, hxs, rfl, rfl⟩, hys, rfl, rfl⟩
      exact ⟨r₁, r₃ ++ r₄, t₁, t₃ ++ t₄, hmove, ih.mpr ⟨r₃, r₄, t₃, t₄, hxs, hys, rfl, rfl⟩,
        by simp, by simp⟩

theorem showsAll_singleton {move : Move} {received : List UInt8} {trace : List Event} :
    ShowsAll [move] received trace ↔ move.Shows received trace := by
  constructor
  · rintro ⟨_, _, _, _, h, ⟨rfl, rfl⟩, rfl, rfl⟩
    simpa using h
  · exact fun h => ⟨received, [], trace, [], h, ⟨rfl, rfl⟩, by simp, by simp⟩

/-- Words queued one after another show themselves. -/
theorem showsAll_pushAll {words : List TxWord} {received : List UInt8} {trace : List Event} :
    ShowsAll (pushAll words) received trace ↔ received = [] ∧ trace = words.map queue := by
  induction words generalizing received trace with
  | nil => exact Iff.rfl
  | cons w rest ih =>
    constructor
    · rintro ⟨_, _, _, _, ⟨rfl, rfl⟩, hrest, rfl, rfl⟩
      obtain ⟨rfl, rfl⟩ := ih.mp hrest
      exact ⟨rfl, rfl⟩
    · rintro ⟨rfl, rfl⟩
      exact ⟨[], [], [queue w], rest.map queue, ⟨rfl, rfl⟩, ih.mpr ⟨rfl, rfl⟩, rfl, rfl⟩

/-- If no move gives up by itself, neither the first one nor any other does. -/
theorem refuse_not_mem_cons {move : Move} {rest : List Move}
    (h : ∀ error, refuse error ∉ move :: rest) :
    (∀ error, move ≠ refuse error) ∧ ∀ error, refuse error ∉ rest :=
  ⟨fun error heq => h error (heq ▸ List.mem_cons_self),
    fun error hmem => h error (List.mem_cons_of_mem move hmem)⟩

/-- The bytes that moves receive when all succeed. -/
def pops (moves : List Move) : Nat := moves.count pop

theorem pops_append (a b : List Move) : pops (a ++ b) = pops a + pops b := List.count_append

theorem pops_pushAll (words : List TxWord) : pops (pushAll words) = 0 := by
  simp [pops, pushAll, List.count_eq_zero]

theorem pops_receive (n : Nat) : pops (receive n) = n := by
  induction n with
  | zero => rfl
  | succ n ih => simpa [pops, receive] using ih

theorem ShowsAll.length_received {moves : List Move} {received : List UInt8}
    {trace : List Event} (h : ShowsAll moves received trace) : received.length = pops moves := by
  induction moves generalizing received trace with
  | nil =>
    obtain ⟨rfl, -⟩ := h
    rfl
  | cons move rest ih =>
    obtain ⟨r₁, r₂, t₁, t₂, hmove, hrest, rfl, rfl⟩ := h
    rw [List.length_append, ih hrest]
    cases move with
    | pop =>
      obtain ⟨value, rfl, -⟩ := hmove
      simp [pops, Nat.add_comm]
    | refuse reason => exact absurd hmove id
    | _ =>
      obtain ⟨rfl, -⟩ := hmove
      simp [pops]

end Move

end TwoWire
