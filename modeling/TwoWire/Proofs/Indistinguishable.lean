import TwoWire.FrontEnd
import TwoWire.Proofs.EngineTrace
import TwoWire.Sim.Script

/-!
# Indistinguishable requests

The engine looks at a request only through its address and its moves, and the moves depend only on
the legs. So two requests with the same legs cannot be told apart: they give the same events, the
same answer and the same state, whatever the registers do.

* `serve_transaction_eq_of_legs_eq`: cutting runs into operations in another way changes nothing.
* `registers_transfer_eq_plain_transfer`: a transfer to registers is the plain transfer that sends
  the sub-address first, and a front end adds to any transfer one warning at most.
-/

namespace TwoWire

/-! ## What a front end adds -/

namespace FrontEnd

open Log (Logger)

variable {μ κ ε : Type}

/-- The error with which a run answered, if it answered with one. -/
def failure : Except Halt (Reply ε) → Option ε
  | .ok ⟨.error error, _⟩ => some error
  | _ => none

/-- The pieces of the warning about a failed request. -/
def warning [BusError ε] (request : Request) (error : ε) : List String :=
  ["i2c: ", request.name, " to ", Hex.marked 2 request.addr.toNat, " failed: ",
    BusError.name error]

/--
The run `outer` through a front end is the run `inner` of its hardware, but for one warning that is
given exactly if the request failed. The logger may break the run off only where it takes that
warning.
-/
structure Relays [Logger κ] [BusError ε] (request : Request) (logger : κ)
    (inner : Exec μ (Reply ε)) (outer : Exec (FrontEnd μ κ) (Reply ε)) : Prop where
  hardware : outer.state.hardware = inner.state
  left : outer.left = inner.left
  quiet : failure inner.outcome = none →
    outer.events = inner.events ∧ outer.outcome = inner.outcome ∧ outer.state.logger = logger
  warned : ∀ error, failure inner.outcome = some error →
    outer.events
        = inner.events ++ [.log .frontEnd .warn (String.join (warning request error))]
      ∧ match Logger.record .warn (warning request error) logger with
        | .ok logger' => outer.outcome = inner.outcome ∧ outer.state.logger = logger'
        | .error fault => outer.outcome = .error (.fault fault) ∧ outer.state.logger = logger

/-- A warning that the logger takes. -/
theorem warn_of_ok [Logger κ] [BusError ε] {request : Request} {error : ε} {logger logger' : κ}
    (h : Logger.record .warn (warning request error) logger = .ok logger') (hardware : μ)
    (left : Nat) :
    (warn request error : Proc (FrontEnd μ κ) Unit) ⟨hardware, logger⟩ left
      = ⟨[.log .frontEnd .warn (String.join (warning request error))], .ok (),
          ⟨hardware, logger'⟩, left⟩ := by
  unfold warning at h ⊢
  simp only [warn, Proc.zoom, Log.note, h]

/-- A warning at which the logger halts. -/
theorem warn_of_error [Logger κ] [BusError ε] {request : Request} {error : ε} {logger : κ}
    {fault : Fault} (h : Logger.record .warn (warning request error) logger = .error fault)
    (hardware : μ) (left : Nat) :
    (warn request error : Proc (FrontEnd μ κ) Unit) ⟨hardware, logger⟩ left
      = ⟨[.log .frontEnd .warn (String.join (warning request error))], .error (.fault fault),
          ⟨hardware, logger⟩, left⟩ := by
  unfold warning at h ⊢
  simp only [warn, Proc.zoom, Log.note, h]

/-- **A front end hands the run of its hardware on, and adds a warning if the request failed.** -/
theorem serve_relays [Master μ ε] [Logger κ] [BusError ε] (request : Request)
    (frontEnd : FrontEnd μ κ) (allowance : Nat) :
    Relays request frontEnd.logger (Master.serve request frontEnd.hardware allowance)
      (serve request frontEnd allowance) := by
  unfold serve
  rw [Proc.bind_apply]
  simp only [onHardware, Proc.zoom]
  generalize Master.serve request frontEnd.hardware allowance = inner
  obtain ⟨events, outcome, state, left⟩ := inner
  cases outcome with
  | error halt => exact ⟨rfl, rfl, fun _ => ⟨rfl, rfl, rfl⟩, fun _ h => by cases h⟩
  | ok reply =>
    obtain ⟨result, received⟩ := reply
    cases result with
    | ok _ =>
      exact ⟨rfl, rfl, fun _ => ⟨List.append_nil _, rfl, rfl⟩, fun _ h => by cases h⟩
    | error error =>
      -- the warning is the last step, and the only one at which the front end's logger can halt
      cases hr : Logger.record .warn (warning request error) frontEnd.logger with
      | ok logger' =>
        simp only [Proc.bind_apply, warn_of_ok hr, Proc.pure_apply]
        refine ⟨rfl, rfl, (fun h => by cases h), fun e he => ?_⟩
        obtain rfl : error = e := Option.some.inj he
        exact ⟨by simp, by rw [hr]; exact ⟨rfl, rfl⟩⟩
      | error fault =>
        simp only [Proc.bind_apply, warn_of_error hr]
        refine ⟨rfl, rfl, (fun h => by cases h), fun e he => ?_⟩
        obtain rfl : error = e := Option.some.inj he
        exact ⟨rfl, by rw [hr]; exact ⟨rfl, rfl⟩⟩

end FrontEnd

/-! ## Requests that are laid out alike -/

namespace Request

theorem moves_eq_of_legs_eq {q q' : Request} (haddr : q.addr = q'.addr)
    (full : q.operations.any Operation.isEmpty = false)
    (full' : q'.operations.any Operation.isEmpty = false) (hlegs : q.legs = q'.legs) :
    q.moves = q'.moves := by
  rw [moves_eq, moves_eq, full, full', haddr, hlegs]

end Request

namespace Engine

open Log (Logger)

variable {β κ : Type} [RegisterBlock β] [Logger κ]

/-- The engine sees a request only through its address and its moves. -/
theorem serve_eq_of_moves_eq {q q' : Request} (haddr : q.addr = q'.addr)
    (hmoves : q.moves = q'.moves) :
    (serve q : Proc (Engine β κ) (Reply TransferError)) = serve q' := by
  unfold serve plan
  rw [haddr, hmoves]

/--
**Cutting runs into operations in another way changes nothing.**

Both lists give the same events, the same answer and the same state. The buffers, joined, then hold
what was received, and beyond it what was there before: the same if it was the same before.
-/
theorem serve_transaction_eq_of_legs_eq {ops ops' : List Operation}
    (full : ∀ op ∈ ops, op.isEmpty = false) (full' : ∀ op ∈ ops', op.isEmpty = false)
    (same : Leg.ofOperations ops = Leg.ofOperations ops') (addr : UInt8) (engine : Engine β κ)
    (allowance : Nat) :
    serve (.transaction addr ops) engine allowance
        = serve (.transaction addr ops') engine allowance
      ∧ ∀ reply, (serve (.transaction addr ops) engine allowance).outcome = .ok reply →
        let joined := ((Request.transaction addr ops).fill reply.received).flatten
        let joined' := ((Request.transaction addr ops').fill reply.received).flatten
        joined = reply.received ++ (Operation.buffers ops).flatten.drop reply.received.length
          ∧ joined' = reply.received ++ (Operation.buffers ops').flatten.drop reply.received.length
          ∧ ((Operation.buffers ops).flatten = (Operation.buffers ops').flatten
            → joined = joined') := by
  have hmoves : (Request.transaction addr ops).moves = (Request.transaction addr ops').moves :=
    Request.moves_eq_of_legs_eq rfl (by simpa [Request.operations] using full)
      (by simpa [Request.operations] using full') same
  have hserve : (serve (.transaction addr ops) : Proc (Engine β κ) _)
      = serve (.transaction addr ops') := serve_eq_of_moves_eq rfl hmoves
  refine ⟨by rw [hserve], fun reply hreply => ?_⟩
  have hle : reply.received.length ≤ Leg.readTotal (Leg.ofOperations ops) :=
    ensures_length_received engine (.transaction addr ops) allowance reply hreply
  have hjoined := Request.flatten_fill (.transaction addr ops) hle
  have hjoined' := Request.flatten_fill (.transaction addr ops') (same ▸ hle)
  refine ⟨hjoined, hjoined', fun hbuffers => ?_⟩
  rw [hjoined, hjoined', Request.buffers, Request.buffers, hbuffers]

/-- Three bytes written and two read, cut in two ways. -/
theorem two_cuts_of_a_transaction :
    let engine : Engine Sim.ScriptedRegisters Unit :=
      ⟨.standard, true, ⟨[0xC0, 0xC0, 0xC0, 0x80], [0x11, 0x22]⟩, ()⟩
    let ops := [Operation.write [1], .write [2, 3], .read [0, 0]]
    let ops' := [Operation.write [1, 2], .write [3], .read [0], .read [0]]
    Leg.ofOperations ops = Leg.ofOperations ops'
      ∧ serve (.transaction 0x48 ops) engine 40 = serve (.transaction 0x48 ops') engine 40
      ∧ (serve (.transaction 0x48 ops) engine 40).outcome = .ok ⟨.ok (), [0x11, 0x22]⟩
      ∧ ((Request.transaction 0x48 ops).fill [0x11, 0x22]).flatten
        = ((Request.transaction 0x48 ops').fill [0x11, 0x22]).flatten := by
  have full : ∀ op ∈ [Operation.write [1], .write [2, 3], .read [0, 0]], op.isEmpty = false := by
    decide
  have full' : ∀ op ∈ [Operation.write [1, 2], .write [3], .read [0], .read [0]],
      op.isEmpty = false := by decide
  have hsame := serve_transaction_eq_of_legs_eq full full' rfl 0x48
    (⟨.standard, true, ⟨[0xC0, 0xC0, 0xC0, 0x80], [0x11, 0x22]⟩, ()⟩ :
      Engine Sim.ScriptedRegisters Unit) 40
  exact ⟨rfl, hsame.1, rfl, (hsame.2 ⟨.ok (), [0x11, 0x22]⟩ rfl).2.2 rfl⟩

/--
**A transfer to registers is the plain transfer that sends the sub-address first.**

Reading registers is writing the sub-address and reading, and writing registers is writing the
sub-address and the bytes in one go: the same events, answer, state and buffers, whether the
request succeeds, is refused or runs out of time. A front end changes nothing but for the warning
about a failed request.
-/
theorem registers_transfer_eq_plain_transfer {κ' : Type} [Logger κ'] (addr : UInt8)
    (sub : SubAddress) (buffer : List UInt8) {bytes : List UInt8} (hbytes : bytes ≠ []) :
    (serve (.readRegisters addr sub buffer) : Proc (Engine β κ) (Reply TransferError))
        = serve (.writeRead addr sub.bytes buffer)
      ∧ (Request.readRegisters addr sub buffer).fill
        = (Request.writeRead addr sub.bytes buffer).fill
      ∧ (serve (.writeRegisters addr sub bytes) : Proc (Engine β κ) (Reply TransferError))
        = serve (.write addr (sub.bytes ++ bytes))
      ∧ (Request.writeRegisters addr sub bytes).fill
        = (Request.write addr (sub.bytes ++ bytes)).fill
      ∧ ∀ (request : Request) (frontEnd : FrontEnd (Engine β κ) κ') (allowance : Nat),
        FrontEnd.Relays request frontEnd.logger (serve request frontEnd.hardware allowance)
          (FrontEnd.serve request frontEnd allowance) := by
  refine ⟨serve_eq_of_moves_eq rfl ?_, rfl, serve_eq_of_moves_eq rfl ?_, rfl,
    fun request frontEnd allowance => FrontEnd.serve_relays request frontEnd allowance⟩
  · rw [Request.moves_eq, Request.moves_eq]
    rfl
  · refine Request.moves_eq_of_legs_eq rfl ?_ ?_ rfl
    · simp [Request.operations, Operation.isEmpty, Operation.length, sub.bytes_ne_nil, hbytes]
    · simp [Request.operations, Operation.isEmpty, Operation.length, hbytes]

/-- One byte is written to a register with a 16-bit number. -/
theorem one_register_written_plainly :
    let engine : Engine Sim.ScriptedRegisters Unit := ⟨.standard, true, ⟨[0xC0], []⟩, ()⟩
    ([9] : List UInt8) ≠ []
      ∧ serve (.writeRegisters 0x48 (.word 0x0102) [9]) engine 40
        = serve (.write 0x48 [1, 2, 9]) engine 40
      ∧ (serve (.write 0x48 [1, 2, 9]) engine 40).outcome = .ok ⟨.ok (), []⟩ := by
  have hbytes : ([9] : List UInt8) ≠ [] := nofun
  obtain ⟨-, -, hwrite, -⟩ := @registers_transfer_eq_plain_transfer Sim.ScriptedRegisters Unit _ _
    Unit _ 0x48 (.word 0x0102) [] [9] hbytes
  exact ⟨hbytes, congrFun (congrFun hwrite _) 40, rfl⟩

end Engine

end TwoWire
