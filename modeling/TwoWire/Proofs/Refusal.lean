import TwoWire.Proofs.EngineTrace
import TwoWire.Proofs.Runs
import TwoWire.Sim.Script

/-!
# Refused requests

Which requests the engine refuses, and with what error. The reasons are told in terms of the
request alone: an empty payload or buffer (`Request.Blank`), or a maximal run of reads that is too
long for a count word (`Request.Overlong`). `Engine.Refuses` puts them in their order, after the two
that look at the engine and at the address.

`plan_eq_error_iff` says that these are the errors of the check before a transfer. What passes it is
laid out in moves none of which gives up by itself (`refuse_not_mem_layout`), so a request that is
not refused can only run out of time.
-/

namespace TwoWire

namespace Move

/-! ## No move gives up by itself -/

theorem refuse_not_mem_pushAll (error : TransferError) (words : List TxWord) :
    refuse error ∉ pushAll words := by
  simp [pushAll]

theorem refuse_not_mem_receive (error : TransferError) (count : Nat) :
    refuse error ∉ receive count := by
  induction count with
  | zero => simp [receive]
  | succ count ih => simpa [receive] using ih

end Move

namespace Leg

theorem refuse_not_mem_frame (error : TransferError) (addr : UInt8) (legs : List Leg) :
    .refuse error ∉ frame addr legs := by
  induction legs with
  | nil => simp [frame]
  | cons leg rest ih =>
    have hcollect : .refuse error ∉ leg.collect := by
      cases leg with
      | write bytes => simp [collect]
      | read count => simpa [collect] using Move.refuse_not_mem_receive error count
    rw [frame, List.mem_append, List.mem_append]
    rintro ((hwords | hmem) | hmem)
    · exact Move.refuse_not_mem_pushAll error _ hwords
    · exact hcollect hmem
    · exact ih hmem

/-- The count of a read has been checked by the time its moves are laid out. -/
theorem refuse_not_mem_layout (error : TransferError) (addr : UInt8) (legs : List Leg) :
    .refuse error ∉ layout addr legs := by
  unfold layout
  split
  · simp
  · have hclosing : .refuse error ∉ Move.closing (lastDirection legs) := by
      cases lastDirection legs <;> simp [Move.closing]
    simp [Move.opening, refuse_not_mem_frame, hclosing]

end Leg

/-- A move that does not give up by itself fails only at a wait that runs out. -/
theorem Move.Fails.eq_timeout {move : Move} {error : TransferError} {trace : List Event}
    (h : move.Fails error trace) (hmove : ∀ reason, move ≠ .refuse reason) :
    ∃ condition, error = .timeout condition := by
  cases move with
  | await flag => exact ⟨_, h.1⟩
  | drain => exact ⟨_, h.1⟩
  | push word => exact absurd h id
  | pop => exact absurd h id
  | refuse reason => exact absurd rfl (hmove reason)

/-! ## What is wrong with a request -/

namespace Request

/-- Some payload, buffer or operation of the request is empty. -/
def Blank : Request → Prop
  | write _ bytes | writeRegisters _ _ bytes => bytes = []
  | read _ buffer | readRegisters _ _ buffer => buffer = []
  | writeRead _ bytes buffer => bytes = [] ∨ buffer = []
  | transaction _ ops => ∃ op ∈ ops, op.length = 0

/-- Some maximal run of adjacent reads is longer than what one count word can ask for. -/
def Overlong : Request → Prop
  | write .. | writeRegisters .. => False
  | read _ buffer | writeRead _ _ buffer | readRegisters _ _ buffer =>
    maxReadLength < buffer.length
  | transaction _ ops => ∃ run, Operation.MaximalRun ops run ∧ (∀ op ∈ run, op.isRead = true)
    ∧ maxReadLength < Operation.totalLength run

theorem blank_iff (q : Request) : q.Blank ↔ q.operations.any Operation.isEmpty = true := by
  cases q <;> simp [Blank, operations, Operation.isEmpty, Operation.length, SubAddress.bytes_ne_nil]

theorem direction_eq_read_iff {run : List Operation} (hne : run ≠ [])
    (hkind : ∃ kind, ∀ op ∈ run, op.isRead = kind) :
    Move.direction run = .read ↔ ∀ op ∈ run, op.isRead = true := by
  obtain ⟨kind, hkind⟩ := hkind
  -- the first operation tells the kind of all
  match run, hne with
  | .read buffer :: rest, _ =>
    have htrue : true = kind := hkind (.read buffer) List.mem_cons_self
    exact ⟨fun _ op hop => (hkind op hop).trans htrue.symm, fun _ => rfl⟩
  | .write bytes :: rest, _ =>
    refine ⟨nofun, fun h => ?_⟩
    exact absurd (h (.write bytes) List.mem_cons_self) (by simp [Operation.isRead])

/-- A leg that does not fit comes from a maximal run of reads. -/
theorem all_fits_ofOperations_eq_false_iff (ops : List Operation) :
    (Leg.ofOperations ops).all Leg.fits = false ↔ (transaction 0 ops).Overlong := by
  have hrun : ∀ run ∈ Operation.runs ops, (Leg.ofRun run).fits = false
      ↔ (∀ op ∈ run, op.isRead = true) ∧ maxReadLength < Operation.totalLength run := by
    intro run hmem
    rw [← direction_eq_read_iff (Operation.ne_nil_of_mem_runs ops run hmem)
      (Operation.exists_isRead_of_mem_runs ops run hmem)]
    cases hdir : Move.direction run <;> simp [Leg.ofRun, hdir, Leg.fits]
  rw [Leg.ofOperations_eq, List.all_eq_false]
  simp only [List.mem_map, Bool.not_eq_true, Overlong]
  constructor
  · rintro ⟨_, ⟨run, hmem, rfl⟩, hunfit⟩
    exact ⟨run, Operation.mem_runs_iff.mp hmem, (hrun run hmem).mp hunfit⟩
  · rintro ⟨run, hmaximal, hlong⟩
    have hmem := Operation.mem_runs_iff.mpr hmaximal
    exact ⟨_, ⟨run, hmem, rfl⟩, (hrun run hmem).mpr hlong⟩

theorem overlong_iff (q : Request) : q.Overlong ↔ q.legs.all Leg.fits = false := by
  cases q with
  | transaction addr ops => exact (all_fits_ofOperations_eq_false_iff ops).symm
  | _ => simp [Overlong, legs, operations, Leg.ofOperations, Leg.consOperation, Leg.fits]

end Request

/-! ## The engine -/

namespace Engine

open Log (Logger)

variable {β κ : Type}

/-- Why the engine refuses a request. A reason counts only if none before it holds. -/
inductive Refuses (engine : Engine β κ) (request : Request) : TransferError → Prop
  | notInitialized (h : engine.initialized = false) : Refuses engine request .notInitialized
  | invalidAddress (hinit : engine.initialized = true) (h : maxAddress < request.addr) :
    Refuses engine request .invalidAddress
  | emptyBuffer (hinit : engine.initialized = true) (haddr : request.addr ≤ maxAddress)
    (h : request.Blank) : Refuses engine request .emptyBuffer
  | bufferTooLong (hinit : engine.initialized = true) (haddr : request.addr ≤ maxAddress)
    (hfull : ¬request.Blank) (h : request.Overlong) : Refuses engine request .bufferTooLong

/-- The check before a transfer, reason by reason. -/
theorem plan_eq (engine : Engine β κ) (request : Request) :
    engine.plan request
      = if engine.initialized = false then .error .notInitialized
        else if maxAddress < request.addr then .error .invalidAddress
        else if request.operations.any Operation.isEmpty = true then .error .emptyBuffer
        else if request.legs.all Leg.fits = false then .error .bufferTooLong
        else .ok (Leg.layout request.addr request.legs) := by
  rw [plan, checkTarget, Request.moves_eq, Leg.plan]
  by_cases hinit : engine.initialized = true
  · by_cases haddr : maxAddress < request.addr
    · simp [hinit, haddr, bind, Except.bind]
    · by_cases hfits : request.legs.all Leg.fits = true
      · simp [hinit, haddr, hfits, bind, Except.bind]
      · simp [hinit, haddr, hfits, bind, Except.bind]
  · simp [hinit, bind, Except.bind]

/-- **The check before a transfer gives exactly the reasons for a refusal.** -/
theorem plan_eq_error_iff {engine : Engine β κ} {request : Request} {error : TransferError} :
    engine.plan request = .error error ↔ engine.Refuses request error := by
  constructor
  · intro h
    rw [plan_eq] at h
    split at h
    · next hinit =>
      cases h
      exact .notInitialized hinit
    · next hinit =>
      have hready : engine.initialized = true := by simpa using hinit
      split at h
      · next haddr =>
        cases h
        exact .invalidAddress hready haddr
      · next haddr =>
        have hle : request.addr ≤ maxAddress := UInt8.not_lt.mp haddr
        split at h
        · next hblank =>
          cases h
          exact .emptyBuffer hready hle (request.blank_iff.mpr hblank)
        · next hblank =>
          have hfull : ¬request.Blank := fun hb => hblank (request.blank_iff.mp hb)
          split at h
          · next hfits =>
            cases h
            exact .bufferTooLong hready hle hfull (request.overlong_iff.mpr hfits)
          · cases h
  · intro h
    rw [plan_eq]
    cases h with
    | notInitialized hinit => rw [if_pos hinit]
    | invalidAddress hinit haddr => rw [if_neg (by simp [hinit]), if_pos haddr]
    | emptyBuffer hinit haddr hblank =>
      rw [if_neg (by simp [hinit]), if_neg (UInt8.not_lt.mpr haddr),
        if_pos (request.blank_iff.mp hblank)]
    | bufferTooLong hinit haddr hfull hlong =>
      have hnone : ¬request.operations.any Operation.isEmpty = true :=
        fun h => hfull (request.blank_iff.mpr h)
      rw [if_neg (by simp [hinit]), if_neg (UInt8.not_lt.mpr haddr), if_neg hnone,
        if_pos (request.overlong_iff.mp hlong)]

/-- What the engine does not refuse has a plan in which no move gives up by itself. -/
theorem exists_plan {engine : Engine β κ} {request : Request}
    (h : ∀ error, ¬engine.Refuses request error) :
    ∃ moves, engine.plan request = .ok moves ∧ ∀ reason, .refuse reason ∉ moves := by
  cases hplan : engine.plan request with
  | error error => exact absurd (plan_eq_error_iff.mp hplan) (h error)
  | ok moves =>
    obtain ⟨-, -, -, -, rfl⟩ := (plan_eq_ok_iff engine).mp hplan
    exact ⟨_, rfl, fun reason => Leg.refuse_not_mem_layout reason _ _⟩

theorem not_refuses_of_plan {engine : Engine β κ} {request : Request} {moves : List Move}
    (h : engine.plan request = .ok moves) (error : TransferError) :
    ¬engine.Refuses request error := by
  intro hrefused
  cases h.symm.trans (plan_eq_error_iff.mpr hrefused)

/-- What passes all checks is not refused. -/
theorem not_refuses_of_fits {engine : Engine β κ} {request : Request}
    (hinit : engine.initialized = true) (haddr : request.addr ≤ maxAddress)
    (hfull : request.operations.any Operation.isEmpty = false)
    (hfits : request.legs.all Leg.fits = true) (error : TransferError) :
    ¬engine.Refuses request error :=
  not_refuses_of_plan ((plan_eq_ok_iff engine).mpr ⟨hinit, haddr, hfull, hfits, rfl⟩) error

variable [RegisterBlock β] [Logger κ]

/-- A request with a plan carries it out. -/
theorem serve_of_plan {engine : Engine β κ} {request : Request} {moves : List Move}
    (h : engine.plan request = .ok moves) (allowance : Nat) :
    serve request engine allowance = performAll moves engine allowance := by
  unfold serve
  rw [Proc.get_bind_apply, h]

/-- A refused request is over at once: nothing is shown, and nothing is left behind. -/
theorem serve_of_refuses {engine : Engine β κ} {request : Request} {error : TransferError}
    (h : engine.Refuses request error) (allowance : Nat) :
    serve request engine allowance = ⟨[], .ok ⟨.error error, []⟩, engine, allowance⟩ := by
  unfold serve
  rw [Proc.get_bind_apply, plan_eq_error_iff.mpr h]
  rfl

/-- A request that is not refused succeeds or runs out of time. -/
theorem eq_ok_or_timeout_of_serve {engine : Engine β κ} {request : Request} {allowance : Nat}
    {reply : Reply TransferError} (h : ∀ error, ¬engine.Refuses request error)
    (hreply : (serve request engine allowance).outcome = .ok reply) :
    reply.result = .ok () ∨ ∃ condition, reply.result = .error (.timeout condition) := by
  obtain ⟨planned, hplan, hmoves⟩ := exists_plan h
  have hserved : (serve request).Ensures engine fun _ reply _ =>
      reply.result = .ok () ∨ ∃ condition, reply.result = .error (.timeout condition) := by
    refine ensures_serve engine request (fun error herror => ?_) fun moves hmoves' => ?_
    · exact absurd (plan_eq_error_iff.mp herror) (h error)
    · obtain rfl : planned = moves := Except.ok.inj (hplan.symm.trans hmoves')
      refine (ensures_performAll engine planned).mono fun _ reply _ houtcome => ?_
      obtain ⟨result, received⟩ := reply
      cases result with
      | ok => exact Or.inl rfl
      | error error =>
        obtain ⟨done, move, rest, _, _, rfl, -, hfails, -⟩ := houtcome
        have hmove : ∀ reason, move ≠ .refuse reason := by
          rintro reason rfl
          exact hmoves reason (by simp)
        obtain ⟨condition, rfl⟩ := hfails.eq_timeout hmove
        exact Or.inr ⟨condition, rfl⟩
  exact hserved allowance reply hreply

/--
**A request is refused for exactly four reasons, and a refusal has no effect.**

It is refused if the engine has not been brought up; or else if the address does not fit seven bits;
or else if some payload or buffer is empty; or else if some maximal run of reads is longer than one
count word can ask for. There is then no access, no sleep and no record, and engine and buffers are
as before. Any other request succeeds or runs out of time, over any registers: none of its moves
gives up by itself. One without operations succeeds at once.
-/
theorem serve_refuses_exactly (engine : Engine β κ) (request : Request) (allowance : Nat) :
    let run := serve request engine allowance
    (∀ error, (∀ condition, error ≠ .timeout condition) →
        ((∃ received, run.outcome = .ok ⟨.error error, received⟩) ↔ engine.Refuses request error))
      ∧ (∀ error, engine.Refuses request error →
        run = ⟨[], .ok ⟨.error error, []⟩, engine, allowance⟩ ∧ request.fill [] = request.buffers)
      ∧ ((∀ error, ¬engine.Refuses request error) →
        (∃ moves, engine.plan request = .ok moves ∧ ∀ reason, .refuse reason ∉ moves)
          ∧ ∀ reply, run.outcome = .ok reply →
            reply.result = .ok () ∨ ∃ condition, reply.result = .error (.timeout condition))
      ∧ (engine.initialized = true → request.addr ≤ maxAddress → request.operations = [] →
        run = ⟨[], .ok ⟨.ok (), []⟩, engine, allowance⟩) := by
  intro run
  refine ⟨fun error hsettled => ⟨?_, fun h => ?_⟩, fun error h => ?_, fun h => ?_, ?_⟩
  · rintro ⟨received, hfailed⟩
    by_cases hrefused : ∃ reason, engine.Refuses request reason
    · obtain ⟨reason, hreason⟩ := hrefused
      have hrun : run = ⟨[], .ok ⟨.error reason, []⟩, engine, allowance⟩ :=
        serve_of_refuses hreason allowance
      rw [hrun] at hfailed
      cases hfailed
      exact hreason
    · rcases eq_ok_or_timeout_of_serve (not_exists.mp hrefused) hfailed with hok | ⟨condition, ht⟩
      · cases hok
      · exact absurd (Except.error.inj ht) (hsettled condition)
  · exact ⟨[], congrArg Exec.outcome (serve_of_refuses h allowance)⟩
  · exact ⟨serve_of_refuses h allowance, fillBuffers_nil _⟩
  · exact ⟨exists_plan h, fun reply hreply => eq_ok_or_timeout_of_serve h hreply⟩
  · intro hinit haddr hnil
    have hlegs : request.legs = [] := by rw [Request.legs, hnil, Leg.ofOperations]
    have hplan : engine.plan request = .ok [] :=
      (plan_eq_ok_iff engine).mpr ⟨hinit, haddr, by rw [hnil]; rfl, by rw [hlegs]; rfl,
        by rw [hlegs]; rfl⟩
    exact serve_of_plan hplan allowance

/--
An empty operation is found before a run of reads that is too long, and a run is too long only where
no write cuts it.
-/
theorem long_reads_refused :
    let engine : Engine Sim.ScriptedRegisters Unit := ⟨.standard, true, ⟨[], []⟩, ()⟩
    let first := Operation.read (List.replicate 200 0)
    let second := Operation.read (List.replicate 56 0)
    let served := fun ops => serve (.transaction 0x48 ops) engine 1000
    engine.Refuses (.transaction 0x48 [first, second, .write []]) .emptyBuffer
      ∧ served [first, second, .write []] = ⟨[], .ok ⟨.error .emptyBuffer, []⟩, engine, 1000⟩
      ∧ engine.Refuses (.transaction 0x48 [first, second]) .bufferTooLong
      ∧ served [first, second] = ⟨[], .ok ⟨.error .bufferTooLong, []⟩, engine, 1000⟩
      ∧ (∀ error, ¬engine.Refuses (.transaction 0x48 [first, .write [7], second]) error)
      ∧ ∃ moves, engine.plan (.transaction 0x48 [first, .write [7], second]) = .ok moves
        ∧ ∀ reason, .refuse reason ∉ moves := by
  intro engine first second served
  have hblank : engine.Refuses (.transaction 0x48 [first, second, .write []]) .emptyBuffer :=
    .emptyBuffer rfl (by decide) ⟨.write [], by simp, rfl⟩
  have hreads : ∀ op ∈ [first, second], op.isRead = true ∧ op.length ≠ 0 := by
    have hfirst : first.length = 200 := List.length_replicate
    have hsecond : second.length = 56 := List.length_replicate
    rintro op (_ | ⟨_, _ | ⟨_, hnone⟩⟩)
    · exact ⟨rfl, by omega⟩
    · exact ⟨rfl, by omega⟩
    · cases hnone
  have hmaximal : Operation.MaximalRun [first, second] [first, second] :=
    ⟨[], [], true, rfl, List.cons_ne_nil _ _, fun op hop => (hreads op hop).1, nofun, nofun⟩
  have hlong : engine.Refuses (.transaction 0x48 [first, second]) .bufferTooLong :=
    .bufferTooLong rfl (by decide) (fun ⟨op, hop, hzero⟩ => (hreads op hop).2 hzero)
      ⟨_, hmaximal, fun op hop => (hreads op hop).1, by decide +kernel⟩
  have hcut : ∀ error, ¬engine.Refuses (.transaction 0x48 [first, .write [7], second]) error :=
    not_refuses_of_fits rfl (by decide) (by decide +kernel) (by decide +kernel)
  obtain ⟨hempty, -⟩ := (serve_refuses_exactly engine _ 1000).2.1 _ hblank
  obtain ⟨htoolong, -⟩ := (serve_refuses_exactly engine _ 1000).2.1 _ hlong
  obtain ⟨haccepted, -⟩ := (serve_refuses_exactly engine _ 1000).2.2.1 hcut
  exact ⟨hblank, hempty, hlong, htoolong, hcut, haccepted⟩

end Engine

end TwoWire
