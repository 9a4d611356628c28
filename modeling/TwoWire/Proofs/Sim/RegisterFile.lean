import Mathlib
import TwoWire.Proofs.Sim.Delivery

/-!
# Register files over a session

A session is a sequence of transfers to registers, one after another over the same simulated
controller. What a session has stored is its history, a list of places and bytes in order
(`Request.stores`); what a read gives is the byte stored last in its place, or what the register
held before the session (`session_reads_back`).

A transfer that has been delivered changes the registers by its stores only (`kept_of_delivers`),
so the history of a session is that of its first transfer and then of the others. The slaves have to
be plain: with as many pointer bytes as the sub-address has, and without latches.
-/

namespace TwoWire

/-- The register that a sub-address names. -/
def SubAddress.register : SubAddress → UInt16
  | byte offset => offset.toUInt16
  | word offset => offset

/-- The bytes of a sub-address, shifted into a pointer, give the register that it names. -/
theorem SubAddress.shiftIn_bytes (sub : SubAddress) :
    Sim.Slave.shiftIn 0 sub.bytes = sub.register := by
  cases sub with
  | byte offset =>
    show (0 : UInt16) <<< 8 ||| offset.toUInt16 = offset.toUInt16
    rw [UInt16.zero_shiftLeft, UInt16.zero_or]
  | word offset =>
    show ((0 : UInt16) <<< 8 ||| (offset >>> 8).toUInt8.toUInt16) <<< 8
      ||| offset.toUInt8.toUInt16 = offset
    rw [UInt16.zero_shiftLeft, UInt16.zero_or]
    apply UInt16.eq_of_toBitVec_eq
    simp only [UInt16.toBitVec_or, UInt16.toBitVec_shiftLeft, UInt8.toBitVec_toUInt16,
      UInt16.toBitVec_toUInt8, UInt16.toBitVec_shiftRight]
    ext i hi
    simp only [BitVec.getElem_or, BitVec.getElem_setWidth]
    -- the low bits are those of the second byte, the others those of the first
    by_cases h : i < 8
    · simp [h, BitVec.getLsbD_eq_getElem hi]
    · have hlow : i - 8 < 8 := by omega
      have hback : 8 + (i - 8) = i := by omega
      simp [h, hlow, hback, BitVec.getLsbD_eq_getElem hi]

/-! ## History -/

/-- A register of a slave, by the slave's address and the number of the register. -/
abbrev Place : Type := UInt8 × UInt16

/-- Bytes with the places that they go to: consecutive registers of one slave. -/
def placed (addr : UInt8) (register : UInt16) : List UInt8 → List (Place × UInt8)
  | [] => []
  | value :: rest => ((addr, register), value) :: placed addr (register + 1) rest

/-- What a transfer to registers stores, in order. -/
def Request.stores : Request → List (Place × UInt8)
  | .writeRegisters addr sub bytes => placed addr sub.register bytes
  | _ => []

/-- The byte that some requests have stored last in a place. -/
def lastStored (requests : List Request) (place : Place) : Option UInt8 :=
  (requests.flatMap Request.stores).reverse.lookup place

theorem lastStored_cons (request : Request) (rest : List Request) (place : Place) :
    lastStored (request :: rest) place
      = (lastStored rest place).or (request.stores.reverse.lookup place) := by
  rw [lastStored, List.flatMap_cons, List.reverse_append, List.lookup_append, lastStored]

theorem lookup_placed_of_ne {addr other : UInt8} (h : other ≠ addr) (register place : UInt16)
    (bytes : List UInt8) : (placed addr register bytes).reverse.lookup (other, place) = none := by
  rw [List.lookup_eq_none_iff]
  intro entry hentry
  have haddr : entry.1.1 = addr := by
    have hmem := List.mem_reverse.mp hentry
    clear hentry
    induction bytes generalizing register with
    | nil => cases hmem
    | cons value rest ih =>
      rcases List.mem_cons.mp hmem with rfl | hrest
      · rfl
      · exact ih (register + 1) hrest
  refine bne_iff_ne.mpr fun heq => h ?_
  rw [← haddr, ← heq]

namespace Sim

/-! ## Slaves -/

/-- Consecutive registers hold what was stored in them last, or else what they held before. -/
theorem RegisterFile.getElem?_setAll (file : RegisterFile) (addr : UInt8) (register place : UInt16)
    (bytes : List UInt8) :
    (file.setAll register bytes)[place]?
      = ((placed addr register bytes).reverse.lookup (addr, place)).or file[place]? := by
  induction bytes generalizing file register with
  | nil => rfl
  | cons value rest ih =>
    rw [setAll, ih, placed, List.reverse_cons, List.lookup_append, Option.or_assoc]
    congr 1
    by_cases h : place = register
    · subst h
      rw [set_same, List.lookup_cons_self, Option.some_or]
    · have hother : ((addr, place) == (addr, register)) = false := by simpa using h
      rw [set_other _ _ h, List.lookup_cons, hother, List.lookup_nil, Option.none_or]

/-- Registers outside the span that is set are as before. -/
theorem RegisterFile.getElem?_setAll_of_not_mem (file : RegisterFile) {register place : UInt16}
    {bytes : List UInt8} (h : place ∉ span register bytes.length) :
    (file.setAll register bytes)[place]? = file[place]? := by
  induction bytes generalizing file register with
  | nil => rfl
  | cons value rest ih =>
    obtain ⟨hne, hrest⟩ := List.ne_and_not_mem_of_not_mem_cons h
    rw [setAll, ih (file.set register value) hrest, set_other file value hne]

theorem span_eq_map (register : UInt16) (count : Nat) :
    span register count = (List.range count).map fun i => register + UInt16.ofNat i := by
  induction count generalizing register with
  | zero => rfl
  | succ count ih =>
    rw [span, ih, List.range_succ_eq_map, List.map_cons, List.map_map]
    congr 1
    · simp
    · exact List.map_congr_left fun i _ => Slave.succ_add_ofNat register i

/-- Consecutive registers that have been set give back what was set. -/
theorem RegisterFile.map_value_setAll (file : RegisterFile) (register : UInt16)
    {bytes : List UInt8} (h : bytes.length ≤ 65536) :
    (span register bytes.length).map (file.setAll register bytes).value = bytes := by
  induction bytes generalizing file register with
  | nil => rfl
  | cons first rest ih =>
    have hrest : rest.length < 65536 := h
    -- the first register is not set again by the bytes that follow
    have hfirst : ((file.set register first).setAll (register + 1) rest).value register = first := by
      rw [RegisterFile.value, getElem?_setAll_of_not_mem _ (Slave.not_mem_span_succ hrest), set_same]
      rfl
    rw [List.length_cons, span, List.map_cons, setAll, hfirst,
      ih (file.set register first) (register + 1) (Nat.le_of_lt hrest)]

namespace Slave

variable {slave : Slave}

/-- A write that starts with a whole sub-address stores what follows from there on. -/
theorem writeRun_of_width (sub : SubAddress) (h : slave.width = sub.bytes.length)
    (bytes : List UInt8) :
    slave.writeRun (sub.bytes ++ bytes)
      = { slave with
          file := slave.file.setAll sub.register bytes
          pointer := sub.register + UInt16.ofNat bytes.length } := by
  rw [writeRun, h, List.take_left, List.drop_left, sub.shiftIn_bytes]

/-- A sub-address by itself sets the pointer. -/
theorem writeRun_bytes (sub : SubAddress) (h : slave.width = sub.bytes.length) :
    slave.writeRun sub.bytes = { slave with pointer := sub.register } := by
  have hwrite := writeRun_of_width sub h []
  rw [List.append_nil] at hwrite
  rw [hwrite]
  simp [RegisterFile.setAll]

/-- A slave with a pointer of some bytes, and without latches. -/
structure Plain (width : Nat) (slave : Slave) : Prop where
  width : slave.width = width
  latches : slave.latches = []

theorem Plain.writeRun_eq {sub : SubAddress} (h : slave.Plain sub.bytes.length)
    (bytes : List UInt8) :
    slave.writeRun (sub.bytes ++ bytes)
      = { slave with
          file := slave.file.setAll sub.register bytes
          pointer := sub.register + UInt16.ofNat bytes.length } :=
  writeRun_of_width sub h.width bytes

/-- Without latches, reading leaves the registers alone. -/
theorem Plain.readRun_eq {width : Nat} (h : slave.Plain width) (count : Nat) :
    slave.readRun count
      = ((span slave.pointer count).map slave.file.value,
        { slave with pointer := slave.pointer + UInt16.ofNat count }) := by
  have hfile : ∀ (registers : List UInt16) (file : RegisterFile),
      registers.foldl (fire slave.latches) file = file := by
    intro registers
    induction registers with
    | nil => exact fun _ => rfl
    | cons register rest ih =>
      intro file
      rw [List.foldl_cons, ih, h.latches]
      rfl
  rw [readRun, hfile, h.latches]
  obtain ⟨_, _, _, _⟩ := slave
  obtain rfl := h.latches
  rfl

/-- A write to registers stores its bytes from the sub-address on. -/
theorem Plain.serve_write {sub : SubAddress} (h : slave.Plain sub.bytes.length)
    (bytes : List UInt8) :
    (slave.serve [.write (sub.bytes ++ bytes)]).2
      = { slave with
          file := slave.file.setAll sub.register bytes
          pointer := sub.register + UInt16.ofNat bytes.length } :=
  h.writeRun_eq bytes

/-- A read of registers gives what they hold from the sub-address on, and changes none. -/
theorem Plain.serve_read {sub : SubAddress} (h : slave.Plain sub.bytes.length) (count : Nat) :
    slave.serve [.write sub.bytes, .read count]
      = ((span sub.register count).map slave.file.value,
        { slave with pointer := sub.register + UInt16.ofNat count }) := by
  have hset := writeRun_bytes sub h.width
  have hplain : Plain sub.bytes.length { slave with pointer := sub.register } :=
    ⟨h.width, h.latches⟩
  simp only [serve, carry, hset, hplain.readRun_eq, List.nil_append, List.append_nil]

/-- What has been written to a slave without latches is what a read of as many bytes gives. -/
theorem Plain.serve_read_of_written (sub : SubAddress) (h : slave.Plain sub.bytes.length)
    {bytes : List UInt8} (hlen : bytes.length ≤ 65536) :
    ((slave.serve [.write (sub.bytes ++ bytes)]).2.serve
      [.write sub.bytes, .read bytes.length]).1 = bytes := by
  have hwritten : Plain sub.bytes.length
      { slave with
        file := slave.file.setAll sub.register bytes
        pointer := sub.register + UInt16.ofNat bytes.length } := ⟨h.width, h.latches⟩
  rw [h.serve_write, hwritten.serve_read]
  exact RegisterFile.map_value_setAll slave.file sub.register hlen

end Slave

/-! ## Controllers -/

/-- A transfer to registers of a slave that is there, plain, and of the sub-address's width. -/
def Suits (slaves : Std.ExtTreeMap UInt8 Slave) : Request → Prop
  | .writeRegisters addr sub _ | .readRegisters addr sub _ =>
    ∃ slave, slaves[addr]? = some slave ∧ slave.Plain sub.bytes.length
  | _ => False

namespace Controller

variable {before mid after : Controller}

/-- Beyond some stores, the registers are as before, and plain slaves have stayed plain. -/
structure Kept (history : List (Place × UInt8)) (before after : Controller) : Prop where
  register : ∀ addr register, after.register addr register
    = (history.reverse.lookup (addr, register)).or (before.register addr register)
  plain : ∀ {addr : UInt8} {width : Nat} {slave : Slave},
    before.slaves[addr]? = some slave → slave.Plain width →
    ∃ next : Slave, after.slaves[addr]? = some next ∧ next.Plain width

theorem Kept.suits {history : List (Place × UInt8)} (h : Kept history before after)
    {request : Request} (hsuits : Suits before.slaves request) : Suits after.slaves request := by
  cases request with
  | writeRegisters addr sub bytes =>
    obtain ⟨slave, hslave, hplain⟩ := hsuits
    exact h.plain hslave hplain
  | readRegisters addr sub buffer =>
    obtain ⟨slave, hslave, hplain⟩ := hsuits
    exact h.plain hslave hplain
  | write | read | writeRead | transaction => exact hsuits.elim

/-- A slave changed by itself, in its registers by some stores. -/
theorem kept_modify {addr : UInt8} {slave : Slave} {width : Nat} {f : Slave → Slave}
    {history : List (Place × UInt8)} (hslave : before.slaves[addr]? = some slave)
    (hplain : slave.Plain width) (hnext : (f slave).Plain width)
    (hafter : after.slaves = before.slaves.modify addr f)
    (hfile : ∀ register, (f slave).file[register]?
      = (history.reverse.lookup (addr, register)).or slave.file[register]?)
    (hothers : ∀ other register, other ≠ addr → history.reverse.lookup (other, register) = none) :
    Kept history before after := by
  have hself : after.slaves[addr]? = some (f slave) := by
    rw [hafter, Std.ExtTreeMap.getElem?_modify_self, hslave, Option.map_some]
  have hother : ∀ other, other ≠ addr → after.slaves[other]? = before.slaves[other]? := by
    intro other hne
    rw [hafter, getElem?_modify_of_ne hne]
  constructor
  · intro other register
    by_cases h : other = addr
    · subst h
      rw [Controller.register, Controller.register, hself, hslave]
      exact hfile register
    · rw [Controller.register, hother other h, hothers other register h, Option.none_or,
        Controller.register]
  · intro other width' found hfound hfoundPlain
    by_cases h : other = addr
    · subst h
      obtain rfl : slave = found := Option.some.inj (hslave.symm.trans hfound)
      have hwidth : width = width' := hplain.width.symm.trans hfoundPlain.width
      exact ⟨f slave, hself, hwidth ▸ hnext⟩
    · exact ⟨found, (hother other h).trans hfound, hfoundPlain⟩

/-- **A transfer to registers that has been delivered has stored what it says, and no more.** -/
theorem kept_of_delivers {request : Request} (hsuits : Suits before.slaves request)
    {received : List UInt8} (h : Delivers request.addr request.legs received before after) :
    Kept request.stores before after := by
  have hslaves := h.slaves
  cases request with
  | writeRegisters addr sub bytes =>
    obtain ⟨slave, hslave, hplain⟩ := hsuits
    rw [Request.legs_writeRegisters] at hslaves
    have hserve := hplain.serve_write bytes
    refine kept_modify hslave hplain ?_ hslaves (fun register => ?_) fun other register hne => ?_
    · rw [hserve]
      exact ⟨hplain.width, hplain.latches⟩
    · rw [hserve]
      exact RegisterFile.getElem?_setAll slave.file addr sub.register register bytes
    · exact lookup_placed_of_ne hne sub.register register bytes
  | readRegisters addr sub buffer =>
    obtain ⟨slave, hslave, hplain⟩ := hsuits
    rw [Request.legs_readRegisters] at hslaves
    have hserve := hplain.serve_read buffer.length
    refine kept_modify hslave hplain ?_ hslaves (fun register => ?_) fun _ _ _ => rfl
    · rw [hserve]
      exact ⟨hplain.width, hplain.latches⟩
    · rw [hserve]
      rfl
  | write | read | writeRead | transaction => exact hsuits.elim

/-- A read of registers that has been delivered received what they held before it. -/
theorem received_of_delivers {addr : UInt8} {sub : SubAddress} {buffer received : List UInt8}
    (hsuits : Suits before.slaves (.readRegisters addr sub buffer))
    (h : Delivers addr [.write sub.bytes, .read buffer.length] received before after) :
    received = (List.range buffer.length).map fun i =>
      (before.register addr (sub.register + UInt16.ofNat i)).getD 0 := by
  obtain ⟨slave, hslave, hplain⟩ := hsuits
  have hregister : ∀ register, (before.register addr register).getD 0
      = slave.file.value register := by
    intro register
    rw [Controller.register, hslave]
    rfl
  have hserve := hplain.serve_read buffer.length
  have hanswer := h.received
  rw [hslave, Slave.answer, hserve, span_eq_map, List.map_map] at hanswer
  rw [hanswer]
  exact List.map_congr_left fun i _ => (hregister _).symm

end Controller

end Sim

/-! ## Sessions -/

namespace Engine

open Log (Logger)
open Sim (Controller Suits)

section ServeAll

variable {β κ : Type} [RegisterBlock β] [Logger κ]

/-- Serves requests one after another. -/
def serveAll : List Request → Proc (Engine β κ) (List (Reply TransferError))
  | [] => return []
  | request :: rest => do
    let reply ← serve request
    let replies ← serveAll rest
    return reply :: replies

/-- A session that answers has answered its first request, and then the others from there on. -/
theorem serveAll_cons_of_ok {request : Request} {rest : List Request} {engine : Engine β κ}
    {allowance : Nat} {replies : List (Reply TransferError)}
    (h : (serveAll (request :: rest) engine allowance).outcome = .ok replies) :
    ∃ reply later, replies = reply :: later
      ∧ (serve request engine allowance).outcome = .ok reply
      ∧ (serveAll rest (serve request engine allowance).state
        (serve request engine allowance).left).outcome = .ok later := by
  unfold serveAll at h
  cases hfirst : (serve request engine allowance).outcome with
  | error halt =>
    rw [Proc.bind_of_halt hfirst] at h
    cases h
  | ok reply =>
    rw [Proc.bind_of_ok hfirst] at h
    simp only at h
    cases hrest : (serveAll rest (serve request engine allowance).state
        (serve request engine allowance).left).outcome with
    | error halt =>
      rw [Proc.bind_of_halt hrest] at h
      cases h
    | ok later =>
      rw [Proc.bind_of_ok hrest] at h
      exact ⟨reply, later, (Except.ok.inj h).symm, rfl, rfl⟩

end ServeAll

variable {κ : Type} [Logger κ]

/-- A request that succeeds has been delivered. -/
theorem delivers_of_serve {request : Request} (hne : request.operations ≠ [])
    {engine : Engine Controller κ} (hframed : engine.registers.Framed) {allowance : Nat}
    {reply : Reply TransferError} (hreply : (serve request engine allowance).outcome = .ok reply)
    (hok : reply.result = .ok ()) :
    let after := (serve request engine allowance).state.registers
    Controller.Delivers request.addr request.legs reply.received engine.registers after
      ∧ after.Framed := by
  intro after
  obtain ⟨result, received⟩ := reply
  obtain rfl : result = .ok () := hok
  obtain ⟨haddr, -, hfits, h⟩ := handshake_of_serve hne hreply
  have hr := RegisterBlock.replays_accesses.mpr (serve_replays request engine allowance)
  obtain ⟨hdelivers, -⟩ := Controller.delivers_handshake haddr hfits hframed h hr
  exact ⟨hdelivers, Controller.framed_of_replays hframed hr⟩

/--
**What a session writes to registers it reads back.**

The slaves addressed have no latches, and sub-addresses of their width. If all transfers of the
session succeed, then each read fills its buffer, place by place from its sub-address on and past
the last register to the first, with the byte that the session has stored last in that register; or
else with what the register held before the session, zero if it was not set. Several stores may go
to one register, within one write too, and whatever is between them.
-/
theorem session_reads_back {requests : List Request} {engine : Engine Controller κ}
    (hreach : engine.registers.Reachable)
    (hsuits : ∀ request ∈ requests, Suits engine.registers.slaves request) {allowance : Nat}
    {replies : List (Reply TransferError)}
    (hreplies : (serveAll requests engine allowance).outcome = .ok replies)
    (hok : ∀ reply ∈ replies, reply.result = .ok ()) :
    ∀ earlier addr sub buffer later,
      requests = earlier ++ .readRegisters addr sub buffer :: later →
      ∃ reply, replies[earlier.length]? = some reply
        ∧ (Request.readRegisters addr sub buffer).fill reply.received
          = [(List.range buffer.length).map fun i =>
            let register := sub.register + UInt16.ofNat i
            ((lastStored earlier (addr, register)).or
              (engine.registers.register addr register)).getD 0] := by
  intro earlier addr sub buffer later hsplit
  have hframed := hreach.framed
  clear hreach
  induction earlier generalizing requests engine allowance replies with
  | nil =>
    subst hsplit
    obtain ⟨reply, rest, rfl, hreply, -⟩ := serveAll_cons_of_ok hreplies
    refine ⟨reply, rfl, ?_⟩
    obtain ⟨hdelivers, -⟩ := delivers_of_serve (by simp [Request.operations]) hframed hreply
      (hok reply List.mem_cons_self)
    have hreceived := Controller.received_of_delivers (hsuits _ List.mem_cons_self) hdelivers
    have hlen : reply.received.length = buffer.length := by
      rw [hreceived, List.length_map, List.length_range]
    have hfill : (Request.readRegisters addr sub buffer).fill reply.received
        = [reply.received] := by
      show fillBuffers [buffer] _ = _
      rw [fillBuffers, List.take_of_length_le (Nat.le_of_eq hlen),
        List.drop_eq_nil_of_le (Nat.le_of_eq hlen.symm), List.append_nil]
      rfl
    rw [hfill, hreceived]
    rfl
  | cons request earlier ih =>
    subst hsplit
    obtain ⟨reply, rest, rfl, hreply, hrest⟩ := serveAll_cons_of_ok hreplies
    have hsuit : Suits engine.registers.slaves request := hsuits request List.mem_cons_self
    have hne : request.operations ≠ [] := by
      cases request with
      | writeRegisters | readRegisters => simp [Request.operations]
      | write | read | writeRead | transaction => exact hsuit.elim
    obtain ⟨hdelivers, hframed'⟩ := delivers_of_serve hne hframed hreply
      (hok reply List.mem_cons_self)
    have hkept := Controller.kept_of_delivers hsuit hdelivers
    obtain ⟨answer, hanswer, hfill⟩ := ih
      (fun other hother => hkept.suits (hsuits other (List.mem_cons_of_mem request hother))) hrest
      (fun other hother => hok other (List.mem_cons_of_mem reply hother)) rfl hframed'
    refine ⟨answer, hanswer, ?_⟩
    rw [hfill]
    simp only [hkept.register, lastStored_cons, Option.or_assoc]

/-- Two slaves, one with byte sub-addresses and one with word sub-addresses. -/
def twoSlaves : Controller :=
  (((Controller.ofLatency 0 1).attach 0x48 1).setRegisters 0x48 0x101 [0x66]).attach 0x3B 2

/-- Both slaves are written; one write goes past register `0xFF`, and a later one into it. -/
theorem overlapping_writes_read_back :
    let engine : Engine Controller Unit := ⟨.standard, true, twoSlaves, ()⟩
    let earlier : List Request :=
      [.writeRegisters 0x48 (.byte 0xFF) [3, 4], .writeRegisters 0x3B (.word 0x100) [9],
        .writeRegisters 0x48 (.byte 0xFF) [5]]
    let last := Request.readRegisters 0x48 (.byte 0xFF) [0, 0, 0]
    let replies : List (Reply TransferError) :=
      [⟨.ok (), []⟩, ⟨.ok (), []⟩, ⟨.ok (), []⟩, ⟨.ok (), [5, 4, 0x66]⟩]
    twoSlaves.Reachable ∧ (∀ request ∈ earlier ++ [last], Suits twoSlaves.slaves request)
      ∧ (serveAll (earlier ++ [last]) engine 60).outcome = .ok replies
      ∧ (∀ reply ∈ replies, reply.result = .ok ())
      ∧ ∃ reply, replies[3]? = some reply
        ∧ last.fill reply.received = [(List.range 3).map fun i =>
          let register := 0xFF + UInt16.ofNat i
          ((lastStored earlier (0x48, register)).or
            (twoSlaves.register 0x48 register)).getD 0] := by
  intro engine earlier last replies
  have hreach : twoSlaves.Reachable :=
    .attach (.setRegisters (.attach (.powerOn 0 1) _ _) _ _ _) _ _
  have hsuits : ∀ request ∈ earlier ++ [last], Suits twoSlaves.slaves request := by
    have hnarrow : ∃ slave, twoSlaves.slaves[(0x48 : UInt8)]? = some slave ∧ slave.Plain 1 :=
      ⟨_, rfl, rfl, rfl⟩
    have hwide : ∃ slave, twoSlaves.slaves[(0x3B : UInt8)]? = some slave ∧ slave.Plain 2 :=
      ⟨_, rfl, rfl, rfl⟩
    intro request hrequest
    simp only [earlier, last, List.mem_append, List.mem_cons, List.not_mem_nil, or_false]
      at hrequest
    rcases hrequest with (rfl | rfl | rfl) | rfl
    · exact hnarrow
    · exact hwide
    · exact hnarrow
    · exact hnarrow
  have hreplies : (serveAll (earlier ++ [last]) engine 60).outcome = .ok replies := by cbv
  have hok : ∀ reply ∈ replies, reply.result = .ok () := by
    simp [replies]
  have hsplit : earlier ++ [last] = earlier ++ last :: [] := rfl
  have hread := session_reads_back hreach hsuits hreplies hok earlier 0x48 (.byte 0xFF) [0, 0, 0] []
    hsplit
  exact ⟨hreach, hsuits, hreplies, hok, hread⟩

end Engine

end TwoWire
