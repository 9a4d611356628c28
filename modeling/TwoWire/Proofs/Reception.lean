import TwoWire.Proofs.Backlog
import TwoWire.Proofs.Refusal

/-!
# Received bytes

The bytes that a request stores into the caller's buffers are those taken out of the receive FIFO
from the first START on, in order and without a gap, whether the request succeeds or not
(`buffers_hold_what_was_received`). A transfer takes bytes out before that only while it drains, and
drains only before it queues its first word; from there on every byte taken out is one that a move
receives (`Move.ShowsAll.taken_eq`).
-/

namespace TwoWire

namespace Event

/-- The event queues a word with START. -/
def queuesStart : Event → Bool
  | .write .half offset bits => offset == Offset.txFifo && TxWord.isStart ⟨bits⟩
  | _ => false

/-- The events from the first START on. -/
def sinceStart (events : List Event) : List Event := events.dropWhile fun e => !e.queuesStart

theorem queuesStart_eq_false {events : List Event} (h : queued (accesses events) = []) :
    ∀ e ∈ events, e.queuesStart = false := by
  intro e he
  refine Bool.eq_false_iff.mpr fun hstart => ?_
  unfold queuesStart at hstart
  split at hstart
  · next offset bits =>
    have hoffset : offset = Offset.txFifo :=
      eq_of_beq (Bool.and_eq_true_iff.mp hstart).1
    have hmem : Event.write .half offset bits ∈ accesses events := List.mem_filter.mpr ⟨he, rfl⟩
    have hnone := List.filterMap_eq_nil_iff.mp h _ hmem
    simp [hoffset] at hnone
  · cases hstart

/-- What queues no word comes before the first START. -/
theorem sinceStart_append {before : List Event} (h : queued (accesses before) = [])
    (rest : List Event) : sinceStart (before ++ rest) = sinceStart rest := by
  refine List.dropWhile_append_of_pos fun e he => ?_
  rw [queuesStart_eq_false h e he]
  rfl

theorem sinceStart_queue {word : TxWord} (h : word.isStart = true) (rest : List Event) :
    sinceStart (queue word :: rest) = queue word :: rest := by
  refine List.dropWhile_cons_of_neg ?_
  simp [queue, queuesStart, h]

/-- Bytes are taken out by accesses. -/
theorem taken_accesses (events : List Event) : taken (accesses events) = taken events := by
  induction events with
  | nil => rfl
  | cons e rest ih =>
    cases e with
    | read width offset value =>
      show taken ([_] ++ accesses rest) = taken ([_] ++ rest)
      rw [taken_append, taken_append, ih]
    | write width offset value => exact ih
    | sleep part ns => exact ih
    | log part level text => exact ih
    | call call => exact ih

end Event

open Event

/-! ## Moves that do not drain -/

namespace Move

variable {move : Move} {moves : List Move} {received : List UInt8} {trace : List Event}

theorem Shows.taken_eq (h : move.Shows received trace) (hmove : move ≠ drain) :
    taken trace = received := by
  cases move with
  | await flag =>
    obtain ⟨rfl, unmet, s, hunmet, -, rfl⟩ := h
    rw [taken_append, hunmet.taken]
    rfl
  | drain => exact absurd rfl hmove
  | push word =>
    obtain ⟨rfl, rfl⟩ := h
    rfl
  | pop =>
    obtain ⟨value, rfl, rfl⟩ := h
    exact taken_takeByte value []
  | refuse reason => exact h.elim

theorem Fails.taken_eq_nil {error : TransferError} (h : move.Fails error trace)
    (hmove : move ≠ drain) : taken trace = [] := by
  cases move with
  | await flag =>
    obtain ⟨-, unmet, s, hunmet, rfl⟩ := h
    rw [taken_append, hunmet.taken]
    rfl
  | drain => exact absurd rfl hmove
  | refuse reason =>
    obtain ⟨-, rfl⟩ := h
    rfl
  | push _ | pop => exact h.elim

/-- **Moves that do not drain receive all the bytes that they take out.** -/
theorem ShowsAll.taken_eq (h : ShowsAll moves received trace) (hmoves : drain ∉ moves) :
    taken trace = received := by
  induction moves generalizing received trace with
  | nil =>
    obtain ⟨rfl, rfl⟩ := h
    rfl
  | cons move rest ih =>
    obtain ⟨r₁, r₂, t₁, t₂, hmove, hrest, rfl, rfl⟩ := h
    have hne : move ≠ drain := (List.ne_of_not_mem_cons hmoves).symm
    rw [taken_append, hmove.taken_eq hne, ih hrest (List.not_mem_of_not_mem_cons hmoves)]

theorem drain_not_mem_pushAll (words : List TxWord) : drain ∉ pushAll words := by
  simp [pushAll]

theorem drain_not_mem_receive (count : Nat) : drain ∉ receive count := by
  induction count with
  | zero => simp [receive]
  | succ count ih => simpa [receive] using ih

theorem drain_not_mem_closing (dir : Direction) : drain ∉ closing dir := by
  cases dir <;> simp [closing]

end Move

theorem Leg.drain_not_mem_frame (addr : UInt8) (legs : List Leg) : .drain ∉ frame addr legs := by
  induction legs with
  | nil => simp [frame]
  | cons leg rest ih =>
    have hcollect : .drain ∉ leg.collect := by
      cases leg with
      | write bytes => simp [collect]
      | read count => simpa [collect] using Move.drain_not_mem_receive count
    rw [frame, List.mem_append, List.mem_append]
    rintro ((hwords | hmem) | hmem)
    · exact Move.drain_not_mem_pushAll _ hwords
    · exact hcollect hmem
    · exact ih hmem

theorem Leg.drain_not_mem_body (addr : UInt8) (legs : List Leg) (dir : Direction) :
    .drain ∉ frame addr legs ++ Move.closing dir := by
  rw [List.mem_append]
  exact not_or.mpr ⟨drain_not_mem_frame addr legs, Move.drain_not_mem_closing dir⟩

/-- The first move of a leg queues START. -/
theorem Leg.exists_frame_eq (addr : UInt8) {legs : List Leg} (hne : legs ≠ []) :
    ∃ dir rest, frame addr legs = .push (.start addr dir) :: rest := by
  cases legs with
  | nil => exact absurd rfl hne
  | cons leg rest =>
    cases leg with
    | write bytes => exact ⟨.write, _, rfl⟩
    | read count => exact ⟨.read, _, rfl⟩

namespace Engine

open Log (Logger)

variable {β κ : Type} [RegisterBlock β] [Logger κ] (engine : Engine β κ)

theorem ensures_performAll_taken {moves : List Move} (hmoves : .drain ∉ moves) :
    (performAll moves : Proc (Engine β κ) _).Ensures engine fun ev reply _ =>
      taken ev = reply.received := by
  refine (ensures_performAll engine moves).mono fun ev reply _ h => ?_
  obtain ⟨result, received⟩ := reply
  rw [← taken_accesses]
  match result with
  | .ok () => exact Move.ShowsAll.taken_eq h hmoves
  | .error error =>
    obtain ⟨done, move, rest, trace, last, rfl, hdone, hfails, hev⟩ := h
    have hmove : move ≠ .drain := by
      rintro rfl
      exact hmoves (by simp)
    rw [hev, taken_append, hfails.taken_eq_nil hmove, List.append_nil]
    exact hdone.taken_eq fun hmem => hmoves (List.mem_append_left _ hmem)

/-- What follows the opening of a transfer begins with START. -/
theorem ensures_body_started (addr : UInt8) {legs : List Leg} (hne : legs ≠ []) (dir : Direction) :
    (performAll (Leg.frame addr legs ++ Move.closing dir) : Proc (Engine β κ) _).Ensures engine
      fun ev _ _ => ∃ first more, ev = queue (.start addr first) :: more := by
  obtain ⟨first, rest, hframe⟩ := Leg.exists_frame_eq addr hne
  rw [hframe]
  refine ensures_performAll_cons engine ((ensures_performed engine _).mono ?_)
  rintro ev ⟨result, received⟩ engine' ⟨hok, -, rfl⟩
  obtain rfl : result = .ok () := hok
  exact fun _ _ _ => ⟨first, _, rfl⟩

/-- From that START on, a transfer receives all that it takes out. -/
theorem ensures_body_received (addr : UInt8) {legs : List Leg} (hne : legs ≠ []) (dir : Direction) :
    (performAll (Leg.frame addr legs ++ Move.closing dir) : Proc (Engine β κ) _).Ensures engine
      fun ev reply _ => sinceStart ev = ev ∧ taken ev = reply.received := by
  refine ((ensures_body_started engine addr hne dir).and
    (ensures_performAll_taken engine (Leg.drain_not_mem_body addr legs dir))).mono ?_
  rintro _ reply _ ⟨⟨first, more, rfl⟩, htaken⟩
  exact ⟨sinceStart_queue (TxWord.isStart_start addr first) more, htaken⟩

/-- The opening of a transfer queues no word and receives nothing. -/
theorem received_of_opening {n : Nat} {reply : Reply TransferError}
    (h : (performAll Move.opening engine n).outcome = .ok reply) : reply.received = [] :=
  List.length_eq_zero_iff.mp (Nat.le_zero.mp (ensures_length_received_le engine _ n reply h))

theorem queued_opening (n : Nat) :
    queued (accesses (performAll Move.opening engine n).events) = [] :=
  always_performAll_of_ne_push waits_queued Move.push_not_mem_opening engine n

/-- A transfer that is opened is carried on from there; one that is not ends there. -/
theorem layout_opened {addr : UInt8} {legs : List Leg} (hne : legs ≠ []) {n : Nat}
    {begun run : Exec (Engine β κ) (Reply TransferError)}
    (hbegun : performAll Move.opening engine n = begun)
    (hrun : performAll (Leg.layout addr legs) engine n = run) :
    (begun.outcome = .ok ⟨.ok (), []⟩ ∧
        let body := performAll (Leg.frame addr legs ++ Move.closing (Leg.lastDirection legs))
          begun.state begun.left
        run = ⟨begun.events ++ body.events, body.outcome, body.state, body.left⟩)
      ∨ (∀ received, begun.outcome ≠ .ok ⟨.ok (), received⟩) ∧ run = begun := by
  rw [Leg.layout_of_ne_nil hne] at hrun
  by_cases hok : ∃ received, begun.outcome = .ok ⟨.ok (), received⟩
  · obtain ⟨received, hok⟩ := hok
    obtain rfl : received = [] := received_of_opening engine (hbegun.symm ▸ hok)
    rw [performAll_append_of_ok engine hbegun hok, Reply.nil_followedBy, Except.map_id] at hrun
    exact Or.inl ⟨hok, hrun.symm⟩
  · have hnot : ∀ received, begun.outcome ≠ .ok ⟨.ok (), received⟩ :=
      fun received h => hok ⟨received, h⟩
    exact Or.inr ⟨hnot, hrun.symm.trans (performAll_append_of_not_ok engine hbegun hnot _)⟩

/--
**A transfer receives the bytes that it takes out from the first START on**, and what is before that
is its opening.
-/
theorem layout_received {addr : UInt8} {legs : List Leg} (hne : legs ≠ []) {n : Nat}
    {begun run : Exec (Engine β κ) (Reply TransferError)}
    (hbegun : performAll Move.opening engine n = begun)
    (hrun : performAll (Leg.layout addr legs) engine n = run) {reply : Reply TransferError}
    (hreply : run.outcome = .ok reply) :
    run.events = begun.events ++ sinceStart run.events
      ∧ reply.received = taken (sinceStart run.events) := by
  have hquiet : queued (accesses begun.events) = [] := hbegun ▸ queued_opening engine n
  rcases layout_opened engine hne hbegun hrun with ⟨-, rfl⟩ | ⟨-, rfl⟩
  · obtain ⟨hsince, htaken⟩ := ensures_body_received begun.state addr hne
      (Leg.lastDirection legs) begun.left reply hreply
    rw [sinceStart_append hquiet, hsince, htaken]
    exact ⟨rfl, rfl⟩
  · have hnone : sinceStart run.events = [] := by
      rw [← List.append_nil run.events]
      exact sinceStart_append hquiet []
    rw [hnone, List.append_nil]
    exact ⟨rfl, received_of_opening engine (hbegun.symm ▸ hreply)⟩

/-- A request that succeeds receives as many bytes as its buffers hold. -/
theorem ensures_serve_filled (request : Request) :
    (serve request).Ensures engine fun _ reply _ => reply.result = .ok () →
      reply.received.length = request.buffers.flatten.length := by
  refine ensures_serve engine request (fun _ _ => nofun) fun moves hplan => ?_
  obtain ⟨-, -, -, -, rfl⟩ := (plan_eq_ok_iff engine).mp hplan
  refine (ensures_performAll engine _).mono fun ev reply _ h => ?_
  obtain ⟨result, received⟩ := reply
  rintro rfl
  have hshows : Move.ShowsAll (Leg.layout request.addr request.legs) received (accesses ev) := h
  rw [hshows.length_received, pops_layout, Request.legs, ← Leg.length_flatten_buffers,
    Request.buffers_operations]

/-! ## The caller's buffers -/

/-- Storing received bytes leaves each buffer as long as it was. -/
theorem map_length_fillBuffers (buffers : List (List UInt8)) (received : List UInt8) :
    (fillBuffers buffers received).map List.length = buffers.map List.length := by
  induction buffers generalizing received with
  | nil => rfl
  | cons buffer rest ih =>
    rw [fillBuffers, List.map_cons, List.map_cons, ih, List.length_append, List.length_take,
      List.length_drop]
    congr 1
    omega

/-- Reading registers is a request for fresh zeros, answered by its buffer if it succeeded. -/
theorem readMany_apply (addr : UInt8) (sub : SubAddress) (count n : Nat) :
    let request := Request.readRegisters addr sub (List.replicate count 0)
    (Master.readMany addr sub count : Proc (Engine β κ) _) engine n =
      ⟨(serve request engine n).events,
        (serve request engine n).outcome.map fun reply =>
          reply.result.map fun _ => (request.fill reply.received).flatten,
        (serve request engine n).state, (serve request engine n).left⟩ := by
  intro request
  have hmap : (Master.readMany addr sub count : Proc (Engine β κ) _)
      = (fun reply => reply.result.map fun _ => (request.fill reply.received).flatten)
        <$> serve request := (map_eq_pure_bind _ _).symm
  rw [hmap, Proc.map_apply]

theorem readRegister_apply (addr : UInt8) (sub : SubAddress) (n : Nat) :
    let many := (Master.readMany addr sub 1 : Proc (Engine β κ) _) engine n
    (Master.readRegister addr sub : Proc (Engine β κ) _) engine n =
      ⟨many.events, many.outcome.map (Except.map fun data => data.headD 0), many.state,
        many.left⟩ := by
  intro many
  have hmap : (Master.readRegister addr sub : Proc (Engine β κ) _)
      = (Except.map fun data => data.headD 0) <$> Master.readMany addr sub 1 :=
    (map_eq_pure_bind _ _).symm
  rw [hmap, Proc.map_apply]

section Serve

variable {engine} {request : Request} {n : Nat} {reply : Reply TransferError}
  (hreply : (serve request engine n).outcome = .ok reply)
include hreply

theorem received_of_serve :
    reply.received = taken (sinceStart (serve request engine n).events) := by
  cases hplan : engine.plan request with
  | error error =>
    rw [serve_of_refuses (plan_eq_error_iff.mp hplan)] at hreply ⊢
    obtain rfl : ⟨.error error, []⟩ = reply := Except.ok.inj hreply
    rfl
  | ok moves =>
    obtain ⟨-, -, -, -, rfl⟩ := (plan_eq_ok_iff engine).mp hplan
    rw [serve_of_plan hplan] at hreply ⊢
    by_cases hlegs : request.legs = []
    · rw [hlegs] at hreply ⊢
      obtain rfl : ⟨.ok (), []⟩ = reply := Except.ok.inj hreply
      rfl
    · exact (layout_received engine hlegs rfl rfl hreply).2

theorem flatten_fill_of_serve :
    (request.fill reply.received).flatten
      = reply.received ++ request.buffers.flatten.drop reply.received.length :=
  request.flatten_fill (ensures_length_received engine request n reply hreply)

/-- After a request that succeeded the buffers hold what was received, and nothing else. -/
theorem flatten_fill_of_ok (hok : reply.result = .ok ()) :
    (request.fill reply.received).flatten = reply.received := by
  have hlength := ensures_serve_filled engine request n reply hreply hok
  rw [flatten_fill_of_serve hreply, hlength, List.drop_length, List.append_nil]

end Serve

/-- Reading registers answers what the request received, if the whole of it succeeded. -/
theorem outcome_readMany (addr : UInt8) (sub : SubAddress) (count n : Nat) :
    ((Master.readMany addr sub count : Proc (Engine β κ) _) engine n).outcome
      = (serve (.readRegisters addr sub (List.replicate count 0)) engine n).outcome.map
        fun reply => reply.result.map fun _ => reply.received := by
  rw [readMany_apply]
  cases hserved : (serve (.readRegisters addr sub (List.replicate count 0)) engine n).outcome with
  | error halt => rfl
  | ok reply =>
    obtain ⟨result, received⟩ := reply
    cases result with
    | error error => rfl
    | ok done =>
      have hfilled := flatten_fill_of_ok hserved rfl
      exact congrArg (fun data => Except.ok (Except.ok data)) hfilled

theorem outcome_readRegister (addr : UInt8) (sub : SubAddress) (n : Nat) :
    ((Master.readRegister addr sub : Proc (Engine β κ) _) engine n).outcome
      = (serve (.readRegisters addr sub [0]) engine n).outcome.map
        fun reply => reply.result.map fun _ => reply.received.headD 0 := by
  rw [readRegister_apply, outcome_readMany]
  show Except.map _ (Except.map _ (serve (.readRegisters addr sub [0]) engine n).outcome) = _
  rcases (serve (.readRegisters addr sub [0]) engine n).outcome with halt | ⟨error | _, received⟩
  all_goals rfl

omit [RegisterBlock β] [Logger κ] engine in
/-- What is answered from the bytes received is answered exactly if the request succeeded. -/
theorem answer_iff {α : Type} {served : Exec (Engine β κ) (Reply TransferError)}
    {outcome : Except Halt (Except TransferError α)} (answer : List UInt8 → α)
    (h : outcome = served.outcome.map fun reply => reply.result.map fun _ => answer reply.received) :
    (∀ a, outcome = .ok (.ok a)
        ↔ ∃ received, served.outcome = .ok ⟨.ok (), received⟩ ∧ answer received = a)
      ∧ ∀ error, outcome = .ok (.error error)
        ↔ ∃ received, served.outcome = .ok ⟨.error error, received⟩ := by
  rw [h]
  rcases served.outcome with halt | ⟨error | _, received⟩
  all_goals simp [Except.map]

/--
**The caller's buffers hold exactly what was received.**

Whatever the registers answer, under any policy and whatever the result, the buffers joined are the
bytes taken out of the receive FIFO from the first START on, in order, and then what the buffers held
at the places after those. No buffer changes its length, and a request that succeeds fills all
places. What comes before the first START is the opening, so a byte taken out by its drain is stored
nowhere.

Reading several registers or one gives data exactly if the request behind it succeeded; the data is
then all that it received. If the request failed, there is the error and no data.
-/
theorem buffers_hold_what_was_received (engine : Engine β κ) (n : Nat) :
    (∀ request reply, (serve request engine n).outcome = .ok reply →
      let events := (serve request engine n).events
      let bytes := taken (sinceStart events)
      let filled := request.fill reply.received
      filled.flatten = bytes ++ request.buffers.flatten.drop bytes.length
        ∧ filled.map List.length = request.buffers.map List.length
        ∧ (reply.result = .ok () → filled.flatten = bytes)
        ∧ ((∀ error, ¬engine.Refuses request error) → request.operations ≠ [] →
          events = (performAll Move.opening engine n).events ++ sinceStart events))
    ∧ (∀ addr sub count,
      let served := serve (.readRegisters addr sub (List.replicate count 0)) engine n
      let many := (Master.readMany addr sub count : Proc (Engine β κ) _) engine n
      many.events = served.events
        ∧ (∀ data, many.outcome = .ok (.ok data) ↔ served.outcome = .ok ⟨.ok (), data⟩)
        ∧ ∀ error, many.outcome = .ok (.error error)
          ↔ ∃ received, served.outcome = .ok ⟨.error error, received⟩)
    ∧ ∀ addr sub,
      let served := serve (.readRegisters addr sub [0]) engine n
      let one := (Master.readRegister addr sub : Proc (Engine β κ) _) engine n
      one.events = served.events
        ∧ (∀ byte, one.outcome = .ok (.ok byte) ↔ served.outcome = .ok ⟨.ok (), [byte]⟩)
        ∧ ∀ error, one.outcome = .ok (.error error)
          ↔ ∃ received, served.outcome = .ok ⟨.error error, received⟩ := by
  refine ⟨fun request reply hreply => ?_, fun addr sub count => ?_, fun addr sub => ?_⟩
  · have hbytes := received_of_serve hreply
    refine ⟨?_, map_length_fillBuffers _ _, fun hok => ?_, fun haccepted hne => ?_⟩
    · rw [← hbytes]
      exact flatten_fill_of_serve hreply
    · rw [← hbytes]
      exact flatten_fill_of_ok hreply hok
    · obtain ⟨moves, hplan, -⟩ := exists_plan haccepted
      obtain ⟨-, -, -, -, rfl⟩ := (plan_eq_ok_iff engine).mp hplan
      rw [serve_of_plan hplan] at hreply ⊢
      exact (layout_received engine (legs_ne_nil hne) rfl rfl hreply).1
  · intro served many
    obtain ⟨hdata, herror⟩ :=
      answer_iff (fun data => data) (outcome_readMany engine addr sub count n)
    refine ⟨congrArg Exec.events (readMany_apply engine addr sub count n), fun data => ?_, herror⟩
    exact (hdata data).trans ⟨fun ⟨_, hok, heq⟩ => heq ▸ hok, fun hok => ⟨data, hok, rfl⟩⟩
  · intro served one
    obtain ⟨hbyte, herror⟩ :=
      answer_iff (fun data => data.headD 0) (outcome_readRegister engine addr sub n)
    refine ⟨?_, fun byte => (hbyte byte).trans ⟨?_, fun hok => ⟨[byte], hok, rfl⟩⟩, herror⟩
    · show ((Master.readRegister addr sub : Proc (Engine β κ) _) engine n).events = _
      rw [readRegister_apply, readMany_apply]
      rfl
    · rintro ⟨received, hok, rfl⟩
      obtain ⟨byte, rfl⟩ := List.length_eq_one_iff.mp (ensures_serve_filled engine _ n _ hok rfl)
      exact hok

/--
A read of two bytes that runs out after one. The stale byte is stored nowhere, and the second place
keeps its contents.
-/
theorem half_a_read_is_kept :
    let engine : Engine Sim.ScriptedRegisters Unit :=
      ⟨⟨15, .bounded 0 1⟩, true, ⟨[0xC0, 0xC0, 0x80, 0xC0, 0x80, 0x80, 0xC0], [0xAA, 0x11]⟩, ()⟩
    let request := Request.read 0x48 [7, 8]
    let run := serve request engine 100
    run.outcome = .ok ⟨.error (.timeout .rxData), [0x11]⟩
      ∧ taken run.events = [0xAA, 0x11] ∧ taken (sinceStart run.events) = [0x11]
      ∧ (request.fill [0x11]).flatten = [0x11, 8] := by
  intro engine request run
  have hreply : run.outcome = .ok ⟨.error (.timeout .rxData), [0x11]⟩ := by cbv
  have hbytes : taken (sinceStart run.events) = [0x11] := by cbv
  obtain ⟨hfilled, -⟩ := (buffers_hold_what_was_received engine 100).1 request _ hreply
  refine ⟨hreply, by cbv, hbytes, ?_⟩
  rw [hfilled, hbytes]
  rfl

end Engine

end TwoWire
