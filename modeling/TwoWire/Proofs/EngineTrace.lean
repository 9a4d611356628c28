import TwoWire.Proofs.Leg
import TwoWire.Proofs.Waits

/-!
# What the engine shows

One statement for each procedure of the engine, over any registers: a wait shows `Awaited` or runs
out, the drain shows `Drained` or runs out, and moves carried out show `Move.ShowsAll` up to the
first that fails (`ensures_performAll`).

`Engine.Leaves` gathers the five things that serving a request is made of, `Engine.Waits` those of
them that do not queue a word. A relation that composes and holds of each of the five holds of every
request, however it ends (`always_serve`).
-/

namespace TwoWire

namespace RegisterBlock

variable {β : Type} [RegisterBlock β]

/-- A relation that holds of the accesses that the block knows holds of every access. -/
theorem always_load_of_read {rel : β → List Event → β → Prop} {width : Width} {offset : Nat}
    (hidle : ∀ block, rel block [] block)
    (hread : ∀ {block value next}, RegisterBlock.read width offset block = .ok (value, next) →
      rel block [.read width offset value] next) :
    Proc.Always rel (load width offset) := by
  intro block n
  cases n with
  | zero => exact hidle block
  | succ n =>
    cases haccess : RegisterBlock.read width offset block with
    | error fault =>
      simp only [load, haccess]
      exact hidle block
    | ok result =>
      simp only [load, haccess]
      exact hread haccess

theorem always_store_of_write {rel : β → List Event → β → Prop} {width : Width} {offset : Nat}
    {value : width.Value} (hidle : ∀ block, rel block [] block)
    (hwrite : ∀ {block next}, RegisterBlock.write width offset value block = .ok next →
      rel block [.write width offset value] next) :
    Proc.Always rel (store width offset value) := by
  intro block n
  cases n with
  | zero => exact hidle block
  | succ n =>
    cases haccess : RegisterBlock.write width offset value block with
    | error fault =>
      simp only [store, haccess]
      exact hidle block
    | ok next =>
      simp only [store, haccess]
      exact hwrite haccess

end RegisterBlock

namespace Engine

open Event Log

variable {β κ : Type} (engine : Engine β κ)

variable [RegisterBlock β] [Logger κ]

/-! ## Moves -/

/-- What a move shows, with its pauses and its records, by its result. -/
def Performed (policy : WaitPolicy) :
    Move → List UInt8 → List Event → Except TransferError Unit → Prop
  | .await flag, received, ev, result => received = [] ∧ Waited policy (.await flag) ev result
  | .drain, received, ev, result => received = [] ∧ Waited policy .drain ev result
  | .push word, received, ev, result => result = .ok () ∧ received = [] ∧ ev = [queue word]
  | .pop, received, ev, result =>
    result = .ok () ∧ ∃ value, received = [value] ∧ ev = [takeByte value]
  | .refuse error, received, ev, result => result = .error error ∧ received = [] ∧ ev = []

theorem ensures_performed (move : Move) :
    (perform move : Proc (Engine β κ) _).Ensures engine fun ev reply _ =>
      Performed engine.config.wait move reply.received ev reply.result := by
  cases move with
  | await flag =>
    refine Proc.Ensures.bind ((ensures_await engine flag).mono fun ev result _ h => ?_)
    exact Proc.ensures_pure ⟨rfl, by simpa using h⟩
  | drain =>
    refine Proc.Ensures.bind ((ensures_drain engine).mono fun ev result _ h => ?_)
    exact Proc.ensures_pure ⟨rfl, by simpa using h⟩
  | push word =>
    refine Proc.Ensures.bind ((ensures_pushWord engine word).mono fun ev _ _ h => ?_)
    subst h
    exact Proc.ensures_pure ⟨rfl, rfl, rfl⟩
  | pop =>
    refine Proc.Ensures.bind ((ensures_popByte engine).mono fun ev b _ h => ?_)
    subst h
    exact Proc.ensures_pure ⟨rfl, b, rfl, rfl⟩
  | refuse error => exact Proc.ensures_pure ⟨rfl, rfl, rfl⟩

/-- What a move shows on the registers, by its result. -/
def Outcome (move : Move) (received : List UInt8) (ev : List Event) :
    Except TransferError Unit → Prop
  | .ok () => move.Shows received (accesses ev)
  | .error error => received = [] ∧ move.Fails error (accesses ev)

section Outcome

variable {policy : WaitPolicy} {move : Move} {received : List UInt8} {ev : List Event}
  {result : Except TransferError Unit}

omit engine [RegisterBlock β] [Logger κ] in
/-- The records of a wait aside, its polls are what its move shows. -/
theorem Waited.outcome (h : Waited policy move ev result) : Outcome move [] ev result := by
  match result with
  | .ok () =>
    obtain ⟨polls, hmeets, rfl⟩ := h
    show move.Shows [] _
    rw [accesses_waited hmeets.accesses]
    exact hmeets.shows
  | .error error =>
    obtain ⟨condition, polls, s, hcondition, rfl, hout, rfl⟩ := h
    refine ⟨rfl, ?_⟩
    rw [accesses_waited_timedOut hout.accesses]
    exact hout.fails hcondition s

omit engine [RegisterBlock β] [Logger κ] in
theorem Performed.outcome (h : Performed policy move received ev result) :
    Outcome move received ev result := by
  cases move with
  | await flag =>
    obtain ⟨rfl, hwaited⟩ := h
    exact hwaited.outcome
  | drain =>
    obtain ⟨rfl, hwaited⟩ := h
    exact hwaited.outcome
  | push word =>
    obtain ⟨rfl, rfl, rfl⟩ := h
    exact ⟨rfl, rfl⟩
  | pop =>
    obtain ⟨rfl, value, rfl, rfl⟩ := h
    exact ⟨value, rfl, rfl⟩
  | refuse error =>
    obtain ⟨rfl, rfl, rfl⟩ := h
    exact ⟨rfl, rfl, rfl⟩

end Outcome

theorem ensures_perform (move : Move) :
    (perform move : Proc (Engine β κ) _).Ensures engine fun ev reply _ =>
      Outcome move reply.received ev reply.result :=
  (ensures_performed engine move).mono fun _ _ _ h => h.outcome

/-- What several moves show, by their result: all succeed, or one fails after those before it. -/
def OutcomeAll (moves : List Move) (received : List UInt8) (ev : List Event) :
    Except TransferError Unit → Prop
  | .ok () => Move.ShowsAll moves received (accesses ev)
  | .error error => ∃ done move rest trace last, moves = done ++ move :: rest
      ∧ Move.ShowsAll done received trace ∧ move.Fails error last
      ∧ accesses ev = trace ++ last

/-- After a move that succeeds, the others are carried out. -/
theorem ensures_performAll_cons {move : Move} {rest : List Move}
    {post : List Event → Reply TransferError → Engine β κ → Prop}
    (h : (perform move).Ensures engine fun ev first engine' =>
      match first.result with
      | .error _ => post ev first engine'
      | .ok () => (performAll rest).Ensures engine' fun ev' later =>
        post (ev ++ ev') (first.followedBy later)) :
    (performAll (move :: rest)).Ensures engine post := by
  refine Proc.Ensures.bind (h.mono fun ev first engine' hfirst => ?_)
  obtain ⟨result, received⟩ := first
  match result with
  | .error error => exact Proc.ensures_pure (by rw [List.append_nil]; exact hfirst)
  | .ok () => exact Proc.Ensures.map hfirst

/-- After moves that succeed, others are carried out. -/
theorem ensures_performAll_append {xs ys : List Move}
    {post : List Event → Reply TransferError → Engine β κ → Prop}
    (h : (performAll xs).Ensures engine fun ev first engine' =>
      match first.result with
      | .error _ => post ev first engine'
      | .ok () => (performAll ys).Ensures engine' fun ev' later =>
        post (ev ++ ev') (first.followedBy later)) :
    (performAll (xs ++ ys)).Ensures engine post := by
  rw [performAll_append]
  refine Proc.Ensures.bind (h.mono fun ev first engine' hfirst => ?_)
  obtain ⟨result, received⟩ := first
  match result with
  | .error error => exact Proc.ensures_pure (by rw [List.append_nil]; exact hfirst)
  | .ok () => exact Proc.Ensures.map hfirst

section Append

variable {xs : List Move} {n : Nat} {first : Exec (Engine β κ) (Reply TransferError)}
  (hfirst : performAll xs engine n = first)
include hfirst

/-- Moves that succeed are followed by the others. -/
theorem performAll_append_of_ok {received : List UInt8}
    (hok : first.outcome = .ok ⟨.ok (), received⟩) (ys : List Move) :
    performAll (xs ++ ys) engine n =
      ⟨first.events ++ (performAll ys first.state first.left).events,
        (performAll ys first.state first.left).outcome.map (Reply.followedBy ⟨.ok (), received⟩),
        (performAll ys first.state first.left).state,
        (performAll ys first.state first.left).left⟩ := by
  subst hfirst
  rw [performAll_append, Proc.bind_of_ok hok]
  rfl

/-- Moves that do not succeed are the last ones. -/
theorem performAll_append_of_not_ok
    (h : ∀ received, first.outcome ≠ .ok ⟨.ok (), received⟩) (ys : List Move) :
    performAll (xs ++ ys) engine n = first := by
  rw [performAll_append, Proc.bind_apply, hfirst]
  rcases hrun : first with ⟨events, _ | ⟨error | _, received⟩, after, left⟩
  · rfl
  · simp [Proc.pure_apply]
  · exact absurd (congrArg Exec.outcome hrun) (h received)

end Append

/-- **Moves carried out show what each of them shows, up to the first that fails.** -/
theorem ensures_performAll (moves : List Move) :
    (performAll moves : Proc (Engine β κ) _).Ensures engine fun ev reply _ =>
      OutcomeAll moves reply.received ev reply.result := by
  induction moves generalizing engine with
  | nil => exact Proc.ensures_pure ⟨rfl, rfl⟩
  | cons move rest ih =>
    refine Proc.Ensures.bind ((ensures_perform engine move).mono fun ev first engine' h => ?_)
    obtain ⟨result, received⟩ := first
    match result with
    | .error error =>
      obtain ⟨rfl, hfails⟩ := h
      refine Proc.ensures_pure ⟨[], move, rest, [], _, rfl, ⟨rfl, rfl⟩, hfails, by simp⟩
    | .ok () =>
      refine Proc.Ensures.map ((ih engine').mono fun ev' later _ h' => ?_)
      obtain ⟨result, more⟩ := later
      match result with
      | .ok () => exact ⟨received, more, _, _, h, h', rfl, by simp⟩
      | .error error =>
        obtain ⟨done, bad, tail, trace, last, rfl, hdone, hfails, hev⟩ := h'
        exact ⟨move :: done, bad, tail, accesses ev ++ trace, last, rfl,
          ⟨received, more, accesses ev, trace, h, hdone, rfl, rfl⟩, hfails, by simp [hev]⟩

/-! ## Requests -/

omit [RegisterBlock β] [Logger κ] in
/-- The requests that the engine accepts, and their moves. -/
theorem plan_eq_ok_iff {request : Request} {moves : List Move} :
    engine.plan request = .ok moves
      ↔ engine.initialized = true ∧ request.addr ≤ maxAddress
        ∧ request.operations.any Operation.isEmpty = false
        ∧ request.legs.all Leg.fits = true ∧ moves = Leg.layout request.addr request.legs := by
  rw [plan, checkTarget, Request.moves_eq, Leg.plan, ← UInt8.not_lt]
  by_cases hinit : engine.initialized = true
  · by_cases haddr : maxAddress < request.addr
    · simp [hinit, haddr, bind, Except.bind]
    · by_cases hempty : request.operations.any Operation.isEmpty = true
      · simp [hinit, haddr, hempty, bind, Except.bind]
      · by_cases hfits : request.legs.all Leg.fits = true
        · simp [hinit, haddr, hempty, hfits, bind, Except.bind, eq_comm]
        · simp [hinit, haddr, hempty, hfits, bind, Except.bind]
  · simp [hinit, bind, Except.bind]

/-- Serving a request that is not refused carries out its moves. -/
theorem ensures_serve (request : Request)
    {post : List Event → Reply TransferError → Engine β κ → Prop}
    (hrefused : ∀ error, engine.plan request = .error error → post [] ⟨.error error, []⟩ engine)
    (hmoves : ∀ moves, engine.plan request = .ok moves → (performAll moves).Ensures engine post) :
    (serve request).Ensures engine post := by
  refine Proc.Ensures.bind (Proc.ensures_get ?_)
  cases hplan : engine.plan request with
  | error error => exact Proc.ensures_pure (hrefused error hplan)
  | ok moves => exact hmoves moves hplan

theorem pops_layout (addr : UInt8) (legs : List Leg) :
    Move.pops (Leg.layout addr legs) = Leg.readTotal legs := by
  have hframe : Move.pops (Leg.frame addr legs) = Leg.readTotal legs := by
    induction legs with
    | nil => rfl
    | cons leg rest ih =>
      rw [Leg.frame, Move.pops_append, Move.pops_append, Move.pops_pushAll, ih]
      cases leg with
      | write bytes => simp [Leg.collect, Leg.readTotal, Move.pops]
      | read count =>
        have hreceive := Move.pops_receive count
        simp_all [Leg.collect, Leg.readTotal, Move.pops]
  have hclosing : ∀ dir, Move.pops (Move.closing dir) = 0 := by
    intro dir
    cases dir <;> rfl
  unfold Leg.layout
  split
  · next h =>
    rw [List.isEmpty_iff.mp h]
    rfl
  · rw [Move.pops_append, Move.pops_append, hframe, hclosing]
    simp [Move.opening, Move.pops]

/-- Moves receive no more bytes than there are among them to receive one. -/
theorem ensures_length_received_le (moves : List Move) :
    (performAll moves : Proc (Engine β κ) _).Ensures engine fun _ reply _ =>
      reply.received.length ≤ Move.pops moves := by
  refine (ensures_performAll engine moves).mono fun ev reply _ h => ?_
  obtain ⟨result, received⟩ := reply
  match result with
  | .ok () => exact Nat.le_of_eq h.length_received
  | .error error =>
    obtain ⟨done, bad, tail, _, _, rfl, hdone, -, -⟩ := h
    rw [hdone.length_received, Move.pops_append]
    exact Nat.le_add_right _ _

/-- No request receives more than its buffers hold, whether it succeeds or not. -/
theorem ensures_length_received (request : Request) :
    (serve request).Ensures engine fun _ reply _ =>
      reply.received.length ≤ Leg.readTotal request.legs := by
  refine ensures_serve engine request (fun _ _ => Nat.zero_le _) fun moves hplan => ?_
  obtain ⟨-, -, -, -, rfl⟩ := (plan_eq_ok_iff engine).mp hplan
  rw [← pops_layout request.addr]
  exact ensures_length_received_le engine _

/-! ## However a request ends -/

/-- A relation that composes, and that holds of each thing which waiting is made of. -/
structure Waits (rel : Engine β κ → List Event → Engine β κ → Prop) : Prop
    extends Proc.Chained rel where
  status : Proc.Always rel status
  popByte : Proc.Always rel popByte
  log : ∀ level pieces, Proc.Always rel (log level pieces)
  sleep : ∀ us, Proc.Always rel (sleep .engine us : Proc (Engine β κ) Unit)

/-- A relation that composes, and that holds of each thing which serving a request is made of. -/
structure Leaves (rel : Engine β κ → List Event → Engine β κ → Prop) : Prop
    extends Waits rel where
  pushWord : ∀ word, Proc.Always rel (pushWord word)

section Leaves

variable {rel : Engine β κ → List Event → Engine β κ → Prop}

theorem Waits.mono {rel' : Engine β κ → List Event → Engine β κ → Prop} (h : Waits rel)
    (hr : Proc.Chained rel') (himp : ∀ {engine events after}, rel engine events after →
      rel' engine events after) : Waits rel' where
  toChained := hr
  status engine n := himp (h.status engine n)
  popByte engine n := himp (h.popByte engine n)
  log level pieces engine n := himp (h.log level pieces engine n)
  sleep us engine n := himp (h.sleep us engine n)

theorem always_timedOut (h : Waits rel) (condition : Condition) :
    Proc.Always rel (timedOut condition : Proc (Engine β κ) _) :=
  h.status.bind h.toChained fun _ =>
    (h.log _ _).bind h.toChained fun _ => Proc.always_pure h.toChained _

theorem always_await (h : Waits rel) (flag : Flag) :
    Proc.Always rel (await flag : Proc (Engine β κ) _) := by
  refine (Proc.always_get h.toChained).bind h.toChained fun engine => ?_
  have hready : Proc.Always rel
      (do return .ok (flag.holds (← status)) : Proc (Engine β κ) (Except Empty Bool)) :=
    h.status.bind h.toChained fun _ => Proc.always_pure h.toChained _
  refine (Always.pollUntil h.toChained hready (h.sleep _)).bind h.toChained fun answer => ?_
  match answer with
  | .ok true => exact Proc.always_pure h.toChained _
  | .ok false => exact always_timedOut h _

theorem always_flush (h : Waits rel) (limit : Nat) :
    Proc.Always rel (flush limit : Proc (Engine β κ) _) := by
  induction limit with
  | zero => exact Proc.always_pure h.toChained _
  | succ limit ih =>
    refine h.status.bind h.toChained fun s => ?_
    show Proc.Always rel (if s.rxEmpty = true then _ else _)
    split
    · exact Proc.always_pure h.toChained _
    · exact h.popByte.bind h.toChained fun _ =>
        ih.bind h.toChained fun _ => Proc.always_pure h.toChained _

theorem always_endDrain (h : Waits rel) (drained : Except Empty Bool) (count : Nat) :
    Proc.Always rel (endDrain drained count : Proc (Engine β κ) _) := by
  have hrecord : ∀ rest : Proc (Engine β κ) (Except TransferError Unit), Proc.Always rel rest →
      Proc.Always rel (if 0 < count then (do
          log .debug ["axi-iic: discarded ", toString (min count maxDiscarded), " stale rx bytes"]
          rest)
        else rest) := by
    intro rest hrest
    split
    · exact (h.log _ _).bind h.toChained fun _ => hrest
    · exact hrest
  rcases drained with never | _ | _
  · cases never
  · exact hrecord _ (always_timedOut h _)
  · exact hrecord _ (Proc.always_pure h.toChained _)

theorem always_drain (h : Waits rel) :
    Proc.Always rel (drain : Proc (Engine β κ) _) := by
  have hfst := h.toChained.fst (τ := Nat)
  have hready : Proc.Always (fun (s : Engine β κ × Nat) ev s' => rel s.1 ev s'.1)
      flushCounting := by
    refine Proc.Always.bind hfst ((always_flush h rxFifoDepth).zoom fun _ _ _ hrel => hrel)
      fun result => ?_
    refine Proc.Always.bind hfst (fun s _ => h.refl s.1) fun _ => Proc.always_pure hfst _
  rw [drain_eq]
  refine (Proc.always_get h.toChained).bind h.toChained fun engine => ?_
  have hpause : Proc.Always (fun (s : Engine β κ × Nat) ev s' => rel s.1 ev s'.1)
      (TwoWire.sleep .engine engine.config.wait.pause : Proc (Engine β κ × Nat) Unit) := by
    intro s n
    exact h.sleep engine.config.wait.pause s.1 n
  refine (Proc.Always.withLocal (Always.pollUntil hfst hready hpause)).bind h.toChained
    fun answer => ?_
  exact always_endDrain h answer.1 answer.2

/-- Every move but the queueing of a word waits. -/
theorem always_perform_of (h : Waits rel) {move : Move}
    (hpush : ∀ word, move = .push word → Proc.Always rel (pushWord word)) :
    Proc.Always rel (perform move : Proc (Engine β κ) _) := by
  cases move with
  | await flag =>
    exact (always_await h flag).bind h.toChained fun _ => Proc.always_pure h.toChained _
  | drain => exact (always_drain h).bind h.toChained fun _ => Proc.always_pure h.toChained _
  | push word => exact (hpush word rfl).bind h.toChained fun _ => Proc.always_pure h.toChained _
  | pop => exact h.popByte.bind h.toChained fun _ => Proc.always_pure h.toChained _
  | refuse error => exact Proc.always_pure h.toChained _

/-- Moves do what waiting does, and what queueing their words does. -/
theorem always_performAll_of (h : Waits rel) {moves : List Move}
    (hpush : ∀ word, .push word ∈ moves → Proc.Always rel (pushWord word)) :
    Proc.Always rel (performAll moves : Proc (Engine β κ) _) := by
  induction moves with
  | nil => exact Proc.always_pure h.toChained _
  | cons move rest ih =>
    have hmove : ∀ word, move = .push word → Proc.Always rel (pushWord word) := by
      rintro word rfl
      exact hpush word List.mem_cons_self
    refine (always_perform_of h hmove).bind h.toChained fun first => ?_
    obtain ⟨result, received⟩ := first
    match result with
    | .error error => exact Proc.always_pure h.toChained _
    | .ok () => exact (ih fun word hmem => hpush word (List.mem_cons_of_mem move hmem)).map

theorem always_perform_of_ne_push (h : Waits rel) {move : Move}
    (hmove : ∀ word, move ≠ .push word) : Proc.Always rel (perform move : Proc (Engine β κ) _) :=
  always_perform_of h fun word hpush => absurd hpush (hmove word)

theorem always_performAll (h : Leaves rel) (moves : List Move) :
    Proc.Always rel (performAll moves : Proc (Engine β κ) _) :=
  always_performAll_of h.toWaits fun word _ => h.pushWord word

theorem always_performAll_of_ne_push (h : Waits rel) {moves : List Move}
    (hmoves : ∀ word, .push word ∉ moves) :
    Proc.Always rel (performAll moves : Proc (Engine β κ) _) :=
  always_performAll_of h fun word hmem => absurd hmem (hmoves word)

/-- **What every access, record and sleep does, every request does, however it ends.** -/
theorem always_serve (h : Leaves rel) (request : Request) :
    Proc.Always rel (serve request : Proc (Engine β κ) _) := by
  refine (Proc.always_get h.toChained).bind h.toChained fun engine => ?_
  cases engine.plan request with
  | error error => exact Proc.always_pure h.toChained _
  | ok moves => exact always_performAll h moves

end Leaves

/-- The settings are the same, and the controller counts as brought up if it did before. -/
def SameSettings (engine : Engine β κ) (_ : List Event) (after : Engine β κ) : Prop :=
  after.config = engine.config ∧ after.initialized = engine.initialized

theorem leaves_sameSettings :
    Leaves (SameSettings : Engine β κ → List Event → Engine β κ → Prop) := by
  have hr : Proc.Chained (SameSettings : Engine β κ → List Event → Engine β κ → Prop) :=
    ⟨fun _ => ⟨rfl, rfl⟩, fun h h' => ⟨h'.1.trans h.1, h'.2.trans h.2⟩⟩
  have hregisters : ∀ {α : Type} (p : Proc β α),
      Proc.Always SameSettings (onRegisters p : Proc (Engine β κ) α) := fun _ _ _ => ⟨rfl, rfl⟩
  refine ⟨⟨hr, ?_, ?_, ?_, ?_⟩, ?_⟩
  · exact (hregisters _).bind hr fun _ => Proc.always_pure hr _
  · exact hregisters _
  · exact fun _ _ _ _ => ⟨rfl, rfl⟩
  · exact fun _ _ _ => ⟨rfl, rfl⟩
  · exact fun _ => hregisters _

end Engine

end TwoWire
