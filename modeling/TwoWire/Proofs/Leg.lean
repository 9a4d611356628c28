import TwoWire.Move

/-!
# Legs of a transfer

A leg is what a maximal run of operations amounts to on the bus: an address phase with all the
bytes written in it, or with the number of bytes read. How a run is cut into operations does not
show in its leg.

The main statements say that the moves of a transfer depend on its legs only: `Operation.moves_eq`
for lists of operations, and `Request.moves_eq` for the other requests, each of which is laid out
like the operations it stands for (`Request.operations`).
-/

namespace TwoWire

/-- One address phase of a transfer. -/
inductive Leg
  /-- The bytes after the address. -/
  | write (bytes : List UInt8)
  /-- The number of bytes read. -/
  | read (count : Nat)
  deriving DecidableEq, Repr

namespace Leg

/-- Puts an operation in front of legs: into the first one if that is of its kind. -/
def consOperation : Operation → List Leg → List Leg
  | .write bytes, write more :: rest => write (bytes ++ more) :: rest
  | .read buffer, read count :: rest => read (buffer.length + count) :: rest
  | .write bytes, rest => write bytes :: rest
  | .read buffer, rest => read buffer.length :: rest

/-- The legs of a list of operations. -/
def ofOperations : List Operation → List Leg
  | [] => []
  | op :: rest => consOperation op (ofOperations rest)

/-- The direction of the address phase. -/
def direction : Leg → Direction
  | write _ => .write
  | read _ => .read

/-- The count of a read fits a count word; a write has no bound. -/
def fits : Leg → Bool
  | write _ => true
  | read count => count ≤ maxReadLength

/-- The transmit words of a leg: the address and then the bytes or the count. -/
def words (addr : UInt8) (last : Bool) : Leg → List TxWord
  | write bytes => .start addr .write :: TxWord.ofBytes bytes last
  | read count => [.start addr .read, .closing (UInt8.ofNat count) last]

/-- What follows the words of a leg: the bytes of a read are collected. -/
def collect : Leg → List Move
  | write _ => []
  | read count => .await .txEmpty :: Move.receive count

/-- The moves of all legs; STOP goes with the last one. -/
def frame (addr : UInt8) : List Leg → List Move
  | [] => []
  | leg :: rest => Move.pushAll (leg.words addr rest.isEmpty) ++ leg.collect ++ frame addr rest

/-- The direction in which a transfer ends. -/
def lastDirection : List Leg → Direction
  | [] => .write
  | [leg] => leg.direction
  | _ :: rest => lastDirection rest

/-- The moves of a transfer with these legs; no legs, no moves. -/
def layout (addr : UInt8) (legs : List Leg) : List Move :=
  if legs.isEmpty then []
  else Move.opening ++ frame addr legs ++ Move.closing (lastDirection legs)

/-- A transfer is opened, its legs are carried out, and it is closed. -/
theorem layout_of_ne_nil {legs : List Leg} (hne : legs ≠ []) (addr : UInt8) :
    layout addr legs = Move.opening ++ (frame addr legs ++ Move.closing (lastDirection legs)) := by
  unfold layout
  rw [if_neg (by simpa using hne), List.append_assoc]

/-- The layout of legs, if their counts fit. -/
def plan (addr : UInt8) (legs : List Leg) : Except TransferError (List Move) :=
  if legs.all fits then .ok (layout addr legs) else .error .bufferTooLong

/-- The bytes that a transfer reads. -/
def readTotal : List Leg → Nat
  | [] => 0
  | write _ :: rest => readTotal rest
  | read count :: rest => count + readTotal rest

theorem readTotal_consOperation (op : Operation) (legs : List Leg) :
    readTotal (consOperation op legs)
      = (Operation.buffers [op]).flatten.length + readTotal legs := by
  unfold consOperation
  split <;> simp [readTotal, Operation.buffers, Nat.add_assoc]

/-- The buffers of operations hold together what their legs read. -/
theorem length_flatten_buffers (ops : List Operation) :
    (Operation.buffers ops).flatten.length = readTotal (ofOperations ops) := by
  induction ops with
  | nil => rfl
  | cons op rest ih =>
    rw [ofOperations, readTotal_consOperation, ← ih]
    cases op <;> simp [Operation.buffers]

/-! ## The leg of a run -/

/-- What a run amounts to. -/
def ofRun (run : List Operation) : Leg :=
  match Move.direction run with
  | .write => write (run.flatMap Operation.sent)
  | .read => read (Operation.totalLength run)

theorem ofRun_cons_of_isRead_eq {op next : Operation} {run : List Operation}
    (h : op.isRead = next.isRead) (rest : List Leg) :
    ofRun (op :: next :: run) :: rest = consOperation op (ofRun (next :: run) :: rest) := by
  cases op <;> cases next <;>
    simp_all [Operation.isRead, ofRun, Move.direction, consOperation, Operation.sent,
      Operation.totalLength, Operation.length]

theorem ofRun_singleton_of_isRead_ne {op next : Operation} {run : List Operation}
    (h : op.isRead ≠ next.isRead) (rest : List Leg) :
    ofRun [op] :: ofRun (next :: run) :: rest = consOperation op (ofRun (next :: run) :: rest) := by
  cases op <;> cases next <;>
    simp_all [Operation.isRead, ofRun, Move.direction, consOperation, Operation.sent,
      Operation.totalLength, Operation.length]

theorem map_ofRun_consRun (op : Operation) {rs : List (List Operation)} (h : ∀ r ∈ rs, r ≠ []) :
    (Operation.consRun op rs).map ofRun = consOperation op (rs.map ofRun) := by
  match rs, h with
  | [], _ => cases op <;> simp [Operation.consRun, ofRun, Move.direction, consOperation,
      Operation.sent, Operation.totalLength, Operation.length]
  | [] :: _, h => exact absurd rfl (h [] List.mem_cons_self)
  | (next :: run) :: rest, _ =>
    -- the operation joins the first run, or starts one of its own
    by_cases hk : op.isRead = next.isRead
    · rw [Operation.consRun, if_pos hk]
      exact ofRun_cons_of_isRead_eq hk _
    · rw [Operation.consRun, if_neg hk]
      exact ofRun_singleton_of_isRead_ne hk _

/-- **The legs are the maximal runs.** -/
theorem ofOperations_eq (ops : List Operation) :
    ofOperations ops = (Operation.runs ops).map ofRun := by
  induction ops with
  | nil => rfl
  | cons op rest ih =>
    rw [Operation.runs, map_ofRun_consRun op (Operation.ne_nil_of_mem_runs rest), ← ih]
    rfl

end Leg

namespace Operation

/-! ## Runs are of one kind -/

theorem exists_isRead_of_mem_consRun {op : Operation} {rs : List (List Operation)}
    (h : ∀ r ∈ rs, ∃ kind, ∀ a ∈ r, a.isRead = kind) :
    ∀ r ∈ consRun op rs, ∃ kind, ∀ a ∈ r, a.isRead = kind := by
  match rs, h with
  | [], _ => simp [consRun]
  | [] :: _, h => simpa [consRun] using h
  | (next :: run) :: rest, h =>
    obtain ⟨⟨kind, hkind⟩, hrest⟩ := List.forall_mem_cons.mp h
    by_cases hk : op.isRead = next.isRead
    · rw [consRun, if_pos hk]
      have hop : op.isRead = kind := hk.trans (hkind next List.mem_cons_self)
      exact List.forall_mem_cons.mpr ⟨⟨kind, List.forall_mem_cons.mpr ⟨hop, hkind⟩⟩, hrest⟩
    · rw [consRun, if_neg hk]
      exact List.forall_mem_cons.mpr ⟨⟨op.isRead, by simp⟩, h⟩

/-- The operations of a run are all reads or all writes. -/
theorem exists_isRead_of_mem_runs (ops : List Operation) :
    ∀ r ∈ runs ops, ∃ kind, ∀ a ∈ r, a.isRead = kind := by
  induction ops with
  | nil => simp [runs]
  | cons op rest ih => exact exists_isRead_of_mem_consRun ih

theorem mem_of_mem_runs {ops run : List Operation} {op : Operation} (hr : run ∈ runs ops)
    (h : op ∈ run) : op ∈ ops := by
  rw [← flatten_runs ops]
  exact List.mem_flatten_of_mem hr h

/-- A run of operations of one kind, none of which is empty. -/
structure ProperRun (run : List Operation) : Prop where
  ne_nil : run ≠ []
  kind : ∃ kind, ∀ a ∈ run, a.isRead = kind
  full : ∀ a ∈ run, a.isEmpty = false

theorem properRun_of_mem_runs {ops : List Operation} (h : ∀ op ∈ ops, op.isEmpty = false) :
    ∀ r ∈ runs ops, ProperRun r := by
  intro r hr
  refine ⟨ne_nil_of_mem_runs ops r hr, exists_isRead_of_mem_runs ops r hr, ?_⟩
  intro a ha
  exact h a (mem_of_mem_runs hr ha)

/-- A proper run writes something with every operation, or reads something. -/
theorem ProperRun.cases {run : List Operation} (h : ProperRun run) :
    (Move.direction run = .write ∧ ∀ op ∈ run, op.sent ≠ [])
      ∨ (Move.direction run = .read ∧ 0 < totalLength run) := by
  obtain ⟨hne, ⟨kind, hkind⟩, hfull⟩ := h
  -- the first operation tells the kind of all
  match run, hne with
  | .write bytes :: rest, _ =>
    refine Or.inl ⟨rfl, fun op hop => ?_⟩
    have hk : op.isRead = false := (hkind op hop).trans (hkind _ List.mem_cons_self).symm
    have hf := hfull op hop
    cases op with
    | write bytes => simpa [isEmpty, length, sent] using hf
    | read buffer => simp [isRead] at hk
  | .read buffer :: rest, _ =>
    refine Or.inr ⟨rfl, ?_⟩
    have hf := hfull _ List.mem_cons_self
    simp only [isEmpty, beq_eq_false_iff_ne] at hf
    rw [totalLength]
    omega

end Operation

namespace Move

/-! ## The moves of a run -/

theorem receive_add (m n : Nat) : receive (m + n) = receive m ++ receive n := by
  induction m with
  | zero => simp [receive]
  | succ m ih => simp [Nat.succ_add, receive, ih]

theorem flatMap_receive (run : List Operation) :
    (run.flatMap fun op => receive op.length) = receive (Operation.totalLength run) := by
  induction run with
  | nil => rfl
  | cons op rest ih => rw [List.flatMap_cons, ih, Operation.totalLength, receive_add]

theorem ofBytes_append (bytes : List UInt8) {more : List UInt8} (last : Bool) (h : more ≠ []) :
    TxWord.ofBytes (bytes ++ more) last
      = TxWord.ofBytes bytes false ++ TxWord.ofBytes more last := by
  induction bytes with
  | nil => simp [TxWord.ofBytes]
  | cons b rest ih =>
    cases rest with
    | nil =>
      obtain ⟨m, more, rfl⟩ := List.exists_cons_of_ne_nil h
      simp [TxWord.ofBytes, TxWord.closing]
    | cons r rest =>
      rw [List.cons_append] at ih
      simp only [List.cons_append, TxWord.ofBytes, ih]

/-- The words of a run of writes are those of its bytes joined. -/
theorem payload_eq (last : Bool) {run : List Operation} (h : ∀ op ∈ run, op.sent ≠ []) :
    payload last run = TxWord.ofBytes (run.flatMap Operation.sent) last := by
  match run, h with
  | [], _ => rfl
  | [op], _ => simp [payload]
  | op :: next :: rest, h =>
    obtain ⟨_, hrest⟩ := List.forall_mem_cons.mp h
    have hne : (next :: rest).flatMap Operation.sent ≠ [] := by
      simp [List.flatMap_cons, hrest next List.mem_cons_self]
    rw [payload, payload_eq last hrest, ← ofBytes_append _ _ hne, ← List.flatMap_cons]
    simp

/-- The moves of a run are those of its leg. -/
theorem ofRun_eq (addr : UInt8) (last : Bool) {run : List Operation}
    (h : Operation.ProperRun run) (hfits : (Leg.ofRun run).fits = true) :
    ofRun addr last run
      = pushAll ((Leg.ofRun run).words addr last) ++ (Leg.ofRun run).collect := by
  rcases h.cases with ⟨hd, hsent⟩ | ⟨hd, hpos⟩
  · simp only [ofRun, Leg.ofRun, hd, Leg.words, Leg.collect, payload_eq last hsent, pushAll,
      List.map_cons, List.append_nil]
  · have hle : Operation.totalLength run ≤ maxReadLength := by
      simpa [Leg.ofRun, hd, Leg.fits] using hfits
    -- the count has been checked, so the run is not refused when its turn comes
    have hcount : readCount (Operation.totalLength run)
        = .ok (UInt8.ofNat (Operation.totalLength run)) := by
      rw [readCount, if_neg (by omega), if_neg (by omega)]
    simp only [ofRun, Leg.ofRun, hd, Leg.words, Leg.collect, requestRead, hcount,
      flatMap_receive, pushAll, List.map_cons, List.map_nil, List.cons_append, List.nil_append]

theorem direction_ofRun (run : List Operation) : (Leg.ofRun run).direction = direction run := by
  unfold Leg.ofRun
  split <;> simp_all [Leg.direction]

/-- The moves of all runs are the frame of their legs, and what it ends with. -/
theorem ofRuns_eq (addr : UInt8) {rs : List (List Operation)} (hne : rs ≠ [])
    (h : ∀ r ∈ rs, Operation.ProperRun r) (hfits : (rs.map Leg.ofRun).all Leg.fits = true) :
    ofRuns addr rs
      = Leg.frame addr (rs.map Leg.ofRun)
        ++ closing (Leg.lastDirection (rs.map Leg.ofRun)) := by
  match rs, hne with
  | [run], _ =>
    have hf : (Leg.ofRun run).fits = true := by simpa using hfits
    rw [ofRuns, ofRun_eq addr true (h run List.mem_cons_self) hf]
    simp [Leg.frame, Leg.lastDirection, direction_ofRun]
  | run :: next :: rest, _ =>
    obtain ⟨hrun, hrest⟩ := List.forall_mem_cons.mp h
    rw [List.map_cons, List.all_cons, Bool.and_eq_true] at hfits
    rw [ofRuns, ofRun_eq addr false hrun hfits.1, ofRuns_eq addr (by simp) hrest hfits.2]
    · simp [Leg.frame, Leg.lastDirection]
    · simp

end Move

namespace Operation

/-! ## Checks -/

theorem checkRun_eq {run : List Operation} (h : ProperRun run) :
    checkRun run = if (Leg.ofRun run).fits then .ok () else .error .bufferTooLong := by
  rcases h.cases with ⟨hd, _⟩ | ⟨hd, hpos⟩
  · simp [checkRun, Leg.ofRun, hd, Leg.fits]
  · simp only [checkRun, Leg.ofRun, hd, Leg.fits, Move.readCount, decide_eq_true_eq]
    rw [if_neg (by omega)]
    by_cases hle : totalLength run ≤ maxReadLength
    · rw [if_neg (by omega), if_pos hle]
      rfl
    · rw [if_pos (by omega), if_neg hle]
      rfl

theorem forM_checkRun {rs : List (List Operation)} (h : ∀ r ∈ rs, ProperRun r) :
    rs.forM checkRun
      = if (rs.map Leg.ofRun).all Leg.fits then .ok () else .error .bufferTooLong := by
  induction rs with
  | nil => rfl
  | cons run rest ih =>
    obtain ⟨hrun, hrest⟩ := List.forall_mem_cons.mp h
    show (do checkRun run; rest.forM checkRun) = _
    rw [checkRun_eq hrun, ih hrest]
    by_cases hf : (Leg.ofRun run).fits = true
    · rw [if_pos hf]
      simp [hf, bind, Except.bind]
    · rw [if_neg hf]
      simp [hf, bind, Except.bind]

/--
**The moves of operations depend on their legs only**, once none of the operations is empty.
-/
theorem moves_eq (addr : UInt8) (ops : List Operation) :
    moves addr ops
      = if ops.any isEmpty then .error .emptyBuffer
        else Leg.plan addr (Leg.ofOperations ops) := by
  unfold moves check
  by_cases hany : ops.any isEmpty = true
  · simp [hany, bind, Except.bind]
  · rw [if_neg hany, if_neg hany]
    have hfull : ∀ op ∈ ops, op.isEmpty = false := by simpa using hany
    have hproper := properRun_of_mem_runs hfull
    rw [forM_checkRun hproper, ← Leg.ofOperations_eq, Leg.plan]
    by_cases hfits : (Leg.ofOperations ops).all Leg.fits = true
    · rw [if_pos hfits, if_pos hfits, Leg.layout]
      by_cases hnil : ops = []
      · subst hnil
        rfl
      · have hruns : runs ops ≠ [] := by
          intro h
          exact hnil (by rw [← flatten_runs ops, h, List.flatten_nil])
        have hlegs : (Leg.ofOperations ops).isEmpty = false := by
          simpa [Leg.ofOperations_eq] using hruns
        rw [Leg.ofOperations_eq] at hfits hlegs ⊢
        rw [Move.ofRuns_eq addr hruns hproper hfits, hlegs]
        simp [hnil, bind, Except.bind, pure, Except.pure]
    · rw [if_neg hfits, if_neg hfits]
      rfl

end Operation

namespace Request

/-! ## Requests -/

/--
The operations that a request stands for. A transfer to registers starts with a write of the
sub-address.
-/
def operations : Request → List Operation
  | write _ bytes => [.write bytes]
  | read _ buffer => [.read buffer]
  | writeRead _ bytes buffer => [.write bytes, .read buffer]
  | transaction _ ops => ops
  | writeRegisters _ sub bytes => [.write sub.bytes, .write bytes]
  | readRegisters _ sub buffer => [.write sub.bytes, .read buffer]

/-- The legs of a request. -/
def legs (q : Request) : List Leg := Leg.ofOperations q.operations

/-- The operations carry the caller's buffers. -/
theorem buffers_operations (q : Request) : Operation.buffers q.operations = q.buffers := by
  cases q <;> rfl

theorem legs_writeRegisters (addr : UInt8) (sub : SubAddress) (bytes : List UInt8) :
    (writeRegisters addr sub bytes).legs = [.write (sub.bytes ++ bytes)] := rfl

theorem legs_readRegisters (addr : UInt8) (sub : SubAddress) (buffer : List UInt8) :
    (readRegisters addr sub buffer).legs = [.write sub.bytes, .read buffer.length] := rfl

/-- A sub-address is never empty, so a transfer to registers is empty only with its payload. -/
theorem isEmpty_write_sub (sub : SubAddress) : (Operation.write sub.bytes).isEmpty = false := by
  simp [Operation.isEmpty, Operation.length, sub.bytes_ne_nil]

theorem moves_writeRegisters (addr : UInt8) (sub : SubAddress) (bytes : List UInt8) :
    (writeRegisters addr sub bytes).moves
      = if (Operation.write bytes).isEmpty then .error .emptyBuffer
        else Leg.plan addr [.write (sub.bytes ++ bytes)] := by
  by_cases hb : bytes = []
  · subst hb
    rfl
  · have hfull : ¬(Operation.write bytes).isEmpty = true := by
      simpa [Operation.isEmpty, Operation.length] using hb
    rw [moves, if_neg (by simpa using hb), if_neg hfull]
    simp [Leg.plan, Leg.fits, Leg.layout, Leg.frame, Leg.words, Leg.collect, Leg.lastDirection,
      Leg.direction, Move.ofBytes_append _ _ hb]

theorem moves_readRegisters (addr : UInt8) (sub : SubAddress) (buffer : List UInt8) :
    (readRegisters addr sub buffer).moves
      = if (Operation.read buffer).isEmpty then .error .emptyBuffer
        else Leg.plan addr [.write sub.bytes, .read buffer.length] := by
  by_cases hb : buffer = []
  · subst hb
    rfl
  · have hlen : buffer.length ≠ 0 := by simpa using hb
    have hfull : ¬(Operation.read buffer).isEmpty = true := by
      simpa [Operation.isEmpty, Operation.length] using hb
    rw [moves, Move.readCount, if_neg hlen, if_neg hfull]
    by_cases hle : buffer.length ≤ maxReadLength
    · rw [if_neg (by omega)]
      simp [Leg.plan, Leg.fits, hle, Leg.layout, Leg.frame, Leg.words, Leg.collect,
        Leg.lastDirection, Leg.direction, Move.pushAll, TxWord.closing, bind, Except.bind, pure,
        Except.pure]
    · rw [if_pos (by omega)]
      simp [Leg.plan, Leg.fits, hle, bind, Except.bind]

/-- **Every request is laid out like the operations that it stands for.** -/
theorem moves_eq (q : Request) :
    q.moves
      = if q.operations.any Operation.isEmpty then .error .emptyBuffer
        else Leg.plan q.addr q.legs := by
  cases q with
  | write | read | writeRead | transaction => exact Operation.moves_eq _ _
  | writeRegisters addr sub bytes =>
    rw [moves_writeRegisters, legs_writeRegisters]
    simp [operations, isEmpty_write_sub, Request.addr]
  | readRegisters addr sub buffer =>
    rw [moves_readRegisters, legs_readRegisters]
    simp [operations, isEmpty_write_sub, Request.addr]

/-- The caller's buffers, joined: what was received, and beyond it what was there. -/
theorem flatten_fill (q : Request) {received : List UInt8}
    (h : received.length ≤ Leg.readTotal q.legs) :
    (q.fill received).flatten = received ++ q.buffers.flatten.drop received.length := by
  have hlen : q.buffers.flatten.length = Leg.readTotal q.legs := by
    rw [← buffers_operations, Leg.length_flatten_buffers, legs]
  rw [fill, flatten_fillBuffers, hlen, List.take_of_length_le h]

end Request

end TwoWire
