import TwoWire.SubAddress

/-!
# Operations and requests

A transaction is a list of operations, each a write of bytes or a read into a buffer. Adjacent
operations of one kind form a run and share one address phase; `runs` cuts a list into its maximal
runs, so that the runs joined give the list back, none is empty, and neighbours differ in kind.

A `Request` is anything that can be asked of a bus master. Its buffers come with the contents that
the caller put in, and `Request.fill` says what they hold after some bytes have been received: the
bytes go into the buffers in order, and the places beyond the last received byte keep their
contents.
-/

namespace TwoWire

/-- One operation of a transaction. A read carries the contents of its buffer. -/
inductive Operation
  | write (bytes : List UInt8)
  | read (buffer : List UInt8)
  deriving DecidableEq, Repr

namespace Operation

def isRead : Operation → Bool
  | write _ => false
  | read _ => true

/-- Bytes moved. -/
def length : Operation → Nat
  | write bytes => bytes.length
  | read buffer => buffer.length

def isEmpty (op : Operation) : Bool := op.length == 0

/-- The bytes that a write sends; a read sends none. -/
def sent : Operation → List UInt8
  | write bytes => bytes
  | read _ => []

/-- The buffers of the reads, in order. -/
def buffers : List Operation → List (List UInt8)
  | [] => []
  | write _ :: rest => buffers rest
  | read buffer :: rest => buffer :: buffers rest

/-! ## Maximal runs -/

/-- Puts an operation in front of a list of runs: into the first run if that is of its kind. -/
def consRun (op : Operation) : List (List Operation) → List (List Operation)
  | (next :: run) :: rest =>
    if op.isRead = next.isRead then (op :: next :: run) :: rest
    else [op] :: (next :: run) :: rest
  | rest => [op] :: rest

/-- The maximal runs of operations of one kind. -/
def runs : List Operation → List (List Operation)
  | [] => []
  | op :: rest => consRun op (runs rest)

/-- Bytes moved by a run. -/
def totalLength : List Operation → Nat
  | [] => 0
  | op :: rest => op.length + totalLength rest

theorem flatten_consRun (op : Operation) (rs : List (List Operation)) :
    (consRun op rs).flatten = op :: rs.flatten := by
  unfold consRun
  split
  · split <;> simp
  · simp

/-- No operation is lost, and none changes its place. -/
theorem flatten_runs (ops : List Operation) : (runs ops).flatten = ops := by
  induction ops with
  | nil => rfl
  | cons op rest ih => simp [runs, flatten_consRun, ih]

theorem ne_nil_of_mem_consRun {op : Operation} {rs : List (List Operation)}
    (h : ∀ r ∈ rs, r ≠ []) : ∀ r ∈ consRun op rs, r ≠ [] := by
  unfold consRun
  split
  · split <;> simp_all
  · simp_all

/-- Every run holds an operation. -/
theorem ne_nil_of_mem_runs (ops : List Operation) : ∀ r ∈ runs ops, r ≠ [] := by
  induction ops with
  | nil => simp [runs]
  | cons op rest ih => exact ne_nil_of_mem_consRun ih

end Operation

/-! ## Requests -/

/-- Something asked of a bus master. -/
inductive Request
  | write (addr : UInt8) (bytes : List UInt8)
  | read (addr : UInt8) (buffer : List UInt8)
  | writeRead (addr : UInt8) (bytes buffer : List UInt8)
  | transaction (addr : UInt8) (ops : List Operation)
  | writeRegisters (addr : UInt8) (sub : SubAddress) (bytes : List UInt8)
  | readRegisters (addr : UInt8) (sub : SubAddress) (buffer : List UInt8)
  deriving DecidableEq, Repr

namespace Request

/-- The slave addressed. -/
def addr : Request → UInt8
  | write addr _ | read addr _ | writeRead addr _ _ | transaction addr _
  | writeRegisters addr _ _ | readRegisters addr _ _ => addr

/-- The word for the request in diagnostics. -/
def name : Request → String
  | write .. => "write"
  | read .. => "read"
  | writeRead .. => "write_read"
  | transaction .. => "transaction"
  | writeRegisters .. => "write_registers"
  | readRegisters .. => "read_registers"

/-- The caller's buffers, in order, with their contents before the request. -/
def buffers : Request → List (List UInt8)
  | write .. | writeRegisters .. => []
  | read _ buffer | writeRead _ _ buffer | readRegisters _ _ buffer => [buffer]
  | transaction _ ops => Operation.buffers ops

end Request

/-- The buffers after `received` has been stored into them. -/
def fillBuffers : List (List UInt8) → List UInt8 → List (List UInt8)
  | [], _ => []
  | buffer :: rest, received =>
    (received.take buffer.length ++ buffer.drop received.length)
      :: fillBuffers rest (received.drop buffer.length)

/-- The caller's buffers after the request received some bytes. -/
def Request.fill (q : Request) (received : List UInt8) : List (List UInt8) :=
  fillBuffers q.buffers received

theorem fillBuffers_nil (bs : List (List UInt8)) : fillBuffers bs [] = bs := by
  induction bs with
  | nil => rfl
  | cons b rest ih => simp [fillBuffers, ih]

/-- Buffers joined: the received bytes that fit, then what was there before. -/
theorem flatten_fillBuffers (bs : List (List UInt8)) (received : List UInt8) :
    (fillBuffers bs received).flatten
      = received.take bs.flatten.length ++ bs.flatten.drop received.length := by
  induction bs generalizing received with
  | nil => simp [fillBuffers]
  | cons b rest ih =>
    rcases Nat.le_total received.length b.length with h | h
    · simp [fillBuffers, List.drop_eq_nil_of_le h, fillBuffers_nil, List.take_of_length_le h,
        List.take_of_length_le (Nat.le_trans h (Nat.le_add_right _ _)),
        Nat.sub_eq_zero_of_le h, List.drop_append]
    · simp [fillBuffers, ih, List.drop_eq_nil_of_le h, List.take_add, List.drop_append,
        List.append_assoc]

end TwoWire
