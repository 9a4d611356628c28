import TwoWire.Proofs.Handshake

/-!
# Transfers that break off

What a transfer shows on the registers when it fails, told in terms of its legs. A transfer that has
been accepted fails only at a wait that runs out, and there are three places for one: before the
first word (`Move.BreaksOff Move.opening`), in a read after its count has been queued
(`Leg.GivenUp`), and after the last leg.

`interrupted_of_breaksOff` says that these are all. What has been queued by then follows from it
(`Interrupted.cases`): nothing, the whole frame, or the frame up to the count of a read that is not
the last leg. In the last case the transfer is `Stranded`: no word with STOP has been queued.
-/

namespace TwoWire

open Event

/-- A wait that ran out: readings that do not show the flag, and one more for the record. -/
def Expired (flag : Flag) (trace : List Event) : Prop :=
  ∃ unmet s, Unmet flag unmet ∧ trace = unmet ++ [readStatus s]

theorem Expired.queued {flag : Flag} {trace : List Event} (h : Expired flag trace) :
    queued trace = [] := by
  obtain ⟨unmet, s, hunmet, rfl⟩ := h
  simp [hunmet.queued]

namespace Move

/-! ## Moves of which one fails -/

/-- What moves show and receive when one of them fails: all those before it succeed. -/
def BreaksOff : List Move → TransferError → List UInt8 → List Event → Prop
  | [], _, _, _ => False
  | move :: rest, error, received, trace =>
    (received = [] ∧ move.Fails error trace)
      ∨ ∃ received₁ received₂ trace₁ trace₂,
        move.Shows received₁ trace₁ ∧ BreaksOff rest error received₂ trace₂
          ∧ received = received₁ ++ received₂ ∧ trace = trace₁ ++ trace₂

theorem breaksOff_of_fails {done : List Move} {move : Move} (rest : List Move)
    {error : TransferError} {received : List UInt8} {shown last : List Event}
    (hdone : ShowsAll done received shown) (hfails : move.Fails error last) :
    BreaksOff (done ++ move :: rest) error received (shown ++ last) := by
  induction done generalizing received shown with
  | nil =>
    obtain ⟨rfl, rfl⟩ := hdone
    exact Or.inl ⟨rfl, hfails⟩
  | cons first more ih =>
    obtain ⟨r₁, r₂, t₁, t₂, hfirst, hmore, rfl, rfl⟩ := hdone
    exact Or.inr ⟨r₁, r₂, t₁, t₂ ++ last, hfirst, ih hmore, rfl, by simp⟩

/-- Moves joined break off in the first part, or in the second after the first has succeeded. -/
theorem BreaksOff.of_append {xs ys : List Move} {error : TransferError} {received : List UInt8}
    {trace : List Event} (h : BreaksOff (xs ++ ys) error received trace) :
    BreaksOff xs error received trace
      ∨ ∃ received₁ received₂ trace₁ trace₂, ShowsAll xs received₁ trace₁
        ∧ BreaksOff ys error received₂ trace₂
        ∧ received = received₁ ++ received₂ ∧ trace = trace₁ ++ trace₂ := by
  induction xs generalizing received trace with
  | nil => exact Or.inr ⟨[], received, [], trace, ⟨rfl, rfl⟩, h, rfl, rfl⟩
  | cons move rest ih =>
    rcases h with hfails | ⟨r₁, r₂, t₁, t₂, hmove, hrest, rfl, rfl⟩
    · exact Or.inl (Or.inl hfails)
    · rcases ih hrest with hxs | ⟨r₃, r₄, t₃, t₄, hxs, hys, rfl, rfl⟩
      · exact Or.inl (Or.inr ⟨r₁, r₂, t₁, t₂, hmove, hxs, rfl, rfl⟩)
      · exact Or.inr ⟨r₁ ++ r₃, r₄, t₁ ++ t₃, t₄, ⟨r₁, r₃, t₁, t₃, hmove, hxs, rfl, rfl⟩, hys,
          by simp, by simp⟩

/-- Queueing words does not fail. -/
theorem not_breaksOff_pushAll {words : List TxWord} {error : TransferError}
    {received : List UInt8} {trace : List Event} :
    ¬BreaksOff (pushAll words) error received trace := by
  induction words generalizing received trace with
  | nil => exact id
  | cons word rest ih =>
    rintro (⟨-, hfails⟩ | ⟨_, _, _, _, -, hrest, -, -⟩)
    · exact hfails
    · exact ih hrest

/-- A wait in front of other moves runs out, or is met. -/
theorem BreaksOff.of_await {flag : Flag} {rest : List Move} {error : TransferError}
    {received : List UInt8} {trace : List Event}
    (h : BreaksOff (.await flag :: rest) error received trace) :
    error = .timeout flag.condition ∧ Expired flag trace
      ∨ ∃ waiting more, Awaited flag waiting ∧ BreaksOff rest error received more
        ∧ trace = waiting ++ more := by
  rcases h with ⟨-, hfails⟩ | ⟨_, r, waiting, more, ⟨rfl, hwait⟩, hrest, rfl, rfl⟩
  · exact Or.inl hfails
  · exact Or.inr ⟨waiting, more, hwait, hrest, rfl⟩

/-- Moves among which no word is queued show no word, however far they get. -/
theorem BreaksOff.queued_eq_nil {moves : List Move} {error : TransferError}
    {received : List UInt8} {trace : List Event} (h : BreaksOff moves error received trace)
    (hquiet : ∀ word, push word ∉ moves) : queued trace = [] := by
  induction moves generalizing received trace with
  | nil => exact absurd h id
  | cons move rest ih =>
    have hrest : ∀ word, push word ∉ rest := fun word hmem =>
      hquiet word (List.mem_cons_of_mem _ hmem)
    rcases h with ⟨-, hfails⟩ | ⟨_, _, t₁, t₂, hshows, hmore, rfl, rfl⟩
    · cases move with
      | await flag => exact Expired.queued hfails.2
      | drain =>
        obtain ⟨-, discarded, s, hdiscarded, rfl⟩ := hfails
        rw [queued_append, Discarded.queued hdiscarded]
        rfl
      | refuse reason =>
        obtain ⟨-, rfl⟩ := hfails
        rfl
      | push word => exact absurd hfails id
      | pop => exact absurd hfails id
    · rw [queued_append, ih hmore hrest, List.append_nil]
      cases move with
      | await flag => exact hshows.2.queued
      | drain => exact hshows.2.queued
      | pop =>
        obtain ⟨value, -, rfl⟩ := hshows
        rfl
      | push word => exact absurd List.mem_cons_self (hquiet word)
      | refuse reason => exact absurd hshows id

end Move

/-! ## Legs -/

/-- How a transfer opens: the bus is free, and both FIFOs are empty. -/
def Opened (trace : List Event) : Prop :=
  ∃ free sent drained, Awaited .busIdle free ∧ Awaited .txEmpty sent ∧ Drained drained
    ∧ trace = free ++ sent ++ drained

theorem Opened.queued {trace : List Event} (h : Opened trace) : queued trace = [] := by
  obtain ⟨free, sent, drained, hfree, hsent, hdrained, rfl⟩ := h
  simp [hfree.queued, hsent.queued, hdrained.queued]

theorem opened_of_showsAll {received : List UInt8} {trace : List Event}
    (h : Move.ShowsAll Move.opening received trace) : received = [] ∧ Opened trace := by
  obtain ⟨free, _, hfree, hmore, rfl⟩ := showsAll_await.mp h
  obtain ⟨sent, _, hsent, hdrain, rfl⟩ := showsAll_await.mp hmore
  obtain ⟨rfl, hdrained⟩ := Move.showsAll_singleton.mp hdrain
  exact ⟨rfl, free, sent, _, hfree, hsent, hdrained, by simp⟩

namespace Leg

/-- What legs show one after another when more legs follow. -/
def CarriedOn (addr : UInt8) : List Leg → List UInt8 → List Event → Prop
  | [], received, trace => received = [] ∧ trace = []
  | leg :: rest, received, trace => ∃ received₁ received₂ trace₁ trace₂,
    leg.Carried addr false received₁ trace₁ ∧ CarriedOn addr rest received₂ trace₂
      ∧ received = received₁ ++ received₂ ∧ trace = trace₁ ++ trace₂

/-- The words of legs when more legs follow. -/
def leadingWords (addr : UInt8) (legs : List Leg) : List TxWord :=
  legs.flatMap (words addr false)

theorem CarriedOn.queued {addr : UInt8} {legs : List Leg} {received : List UInt8}
    {trace : List Event} (h : CarriedOn addr legs received trace) :
    queued trace = leadingWords addr legs := by
  induction legs generalizing received trace with
  | nil =>
    obtain ⟨-, rfl⟩ := h
    rfl
  | cons leg rest ih =>
    obtain ⟨_, _, _, _, hleg, hrest, -, rfl⟩ := h
    rw [queued_append, hleg.queued, ih hrest, leadingWords, leadingWords, List.flatMap_cons]

theorem allWords_append (addr : UInt8) (before : List Leg) {after : List Leg} (h : after ≠ []) :
    allWords addr (before ++ after) = leadingWords addr before ++ allWords addr after := by
  induction before with
  | nil => rfl
  | cons leg rest ih =>
    have hmore : (rest ++ after).isEmpty = false := by simp [h]
    rw [List.cons_append, allWords, ih, hmore, leadingWords, leadingWords, List.flatMap_cons,
      List.append_assoc]

/--
A read that is given up after its count has been queued: the words are not gone in time, or one of
its bytes does not come in time.
-/
def GivenUp (addr : UInt8) (last : Bool) (count : Nat) (error : TransferError)
    (trace : List Event) : Prop :=
  ∃ rest, trace = queue (.start addr .read) :: queue (.closing (UInt8.ofNat count) last) :: rest
    ∧ (error = .timeout .txEmpty ∧ Expired .txEmpty rest
      ∨ error = .timeout .rxData ∧ ∃ waiting received collected expired, Awaited .txEmpty waiting
        ∧ Collected received collected ∧ received.length < count ∧ Expired .rxData expired
        ∧ rest = waiting ++ collected ++ expired)

theorem GivenUp.queued {addr : UInt8} {last : Bool} {count : Nat} {error : TransferError}
    {trace : List Event} (h : GivenUp addr last count error trace) :
    queued trace = (read count).words addr last := by
  obtain ⟨rest, rfl, ⟨-, hexpired⟩ | ⟨-, waiting, received, collected, expired, hwait,
    hcollected, -, hexpired, rfl⟩⟩ := h
  · rw [queued_queue, queued_queue, hexpired.queued, words]
  · simp [hwait.queued, hcollected.queued, hexpired.queued, words]

/-! ## From moves to legs -/

/-- Collecting bytes breaks off at one that does not come. -/
theorem collected_of_breaksOff {count : Nat} {error : TransferError} {received : List UInt8}
    {trace : List Event} (h : Move.BreaksOff (Move.receive count) error received trace) :
    error = .timeout .rxData ∧ ∃ received collected expired, Collected received collected
      ∧ received.length < count ∧ Expired .rxData expired ∧ trace = collected ++ expired := by
  induction count generalizing received trace with
  | zero => exact absurd h id
  | succ count ih =>
    rcases h.of_await with ⟨herror, hexpired⟩ | ⟨waiting, more, hwait, hmore, rfl⟩
    · exact ⟨herror, [], [], trace, rfl, Nat.succ_pos _, hexpired, rfl⟩
    · rcases hmore with ⟨-, hfails⟩ | ⟨_, _, _, _, ⟨value, -, rfl⟩, hrest, -, rfl⟩
      · exact absurd hfails id
      · obtain ⟨herror, taken, collected, expired, hcollected, hlt, hexpired, rfl⟩ := ih hrest
        refine ⟨herror, value :: taken, waiting ++ takeByte value :: collected, expired,
          ⟨waiting, collected, hwait, hcollected, rfl⟩, Nat.succ_lt_succ hlt, hexpired, by simp⟩

/-- A leg breaks off only if it is a read, and then its count has been queued. -/
theorem givenUp_of_breaksOff {addr : UInt8} {last : Bool} {leg : Leg} {error : TransferError}
    {received : List UInt8} {trace : List Event}
    (h : Move.BreaksOff (Move.pushAll (leg.words addr last) ++ leg.collect) error received trace) :
    ∃ count, leg = read count ∧ GivenUp addr last count error trace := by
  rcases h.of_append with hwords | ⟨_, _, _, rest, hwords, hcollect, rfl, rfl⟩
  · exact absurd hwords Move.not_breaksOff_pushAll
  · obtain ⟨rfl, rfl⟩ := Move.showsAll_pushAll.mp hwords
    cases leg with
    | write bytes => exact absurd hcollect id
    | read count =>
      refine ⟨count, rfl, rest, rfl, ?_⟩
      rcases Move.BreaksOff.of_await hcollect with hexpired | ⟨waiting, _, hwait, hreceive, rfl⟩
      · exact Or.inl hexpired
      · obtain ⟨herror, taken, collected, expired, hcollected, hlt, hexpired, rfl⟩ :=
          collected_of_breaksOff hreceive
        exact Or.inr ⟨herror, waiting, taken, collected, expired, hwait, hcollected, hlt,
          hexpired, by simp⟩

/-- A frame breaks off in one of its reads, after the legs before it have been carried out. -/
theorem exists_givenUp_of_breaksOff {addr : UInt8} {legs : List Leg} {error : TransferError}
    {received : List UInt8} {trace : List Event}
    (h : Move.BreaksOff (frame addr legs) error received trace) :
    ∃ before count after received carried broken, legs = before ++ read count :: after
      ∧ CarriedOn addr before received carried ∧ GivenUp addr after.isEmpty count error broken
      ∧ trace = carried ++ broken := by
  induction legs generalizing received trace with
  | nil => exact absurd h id
  | cons leg rest ih =>
    rcases h.of_append with hleg | ⟨r₁, _, t₁, _, hleg, hrest, rfl, rfl⟩
    · obtain ⟨count, rfl, hgivenUp⟩ := givenUp_of_breaksOff hleg
      exact ⟨[], count, rest, [], [], trace, rfl, ⟨rfl, rfl⟩, hgivenUp, rfl⟩
    · obtain ⟨before, count, after, r, carried, broken, rfl, hcarried, hgivenUp, rfl⟩ := ih hrest
      have hfollowed : (before ++ read count :: after).isEmpty = false := by simp
      have hfirst : leg.Carried addr false r₁ t₁ := hfollowed ▸ showsAll_leg hleg
      exact ⟨leg :: before, count, after, r₁ ++ r, t₁ ++ carried, broken, rfl,
        ⟨r₁, r, t₁, carried, hfirst, hcarried, rfl, rfl⟩, hgivenUp, by simp⟩

end Leg

/-! ## Transfers -/

/-- Where a transfer with some legs fails, and what it has shown by then. -/
inductive Interrupted (addr : UInt8) (legs : List Leg) (error : TransferError) :
    List Event → Prop
  /-- Before the first word. -/
  | opening {received : List UInt8} {trace : List Event}
    (h : Move.BreaksOff Move.opening error received trace) : Interrupted addr legs error trace
  /-- In a read, after its count. -/
  | reading {before after : List Leg} {count : Nat} {received : List UInt8}
    {opened carried broken : List Event} (hlegs : legs = before ++ .read count :: after)
    (hopened : Opened opened) (hcarried : Leg.CarriedOn addr before received carried)
    (hbroken : Leg.GivenUp addr after.isEmpty count error broken) :
    Interrupted addr legs error (opened ++ carried ++ broken)
  /-- After the last leg. -/
  | closing {received received' : List UInt8} {opened carried ended : List Event}
    (hopened : Opened opened) (hcarried : Leg.CarriedAll addr legs received carried)
    (hended : Move.BreaksOff (Move.closing (Leg.lastDirection legs)) error received' ended) :
    Interrupted addr legs error (opened ++ carried ++ ended)

/-- **A transfer fails in one of three places.** -/
theorem interrupted_of_breaksOff {addr : UInt8} {legs : List Leg} {error : TransferError}
    {received : List UInt8} {trace : List Event}
    (h : Move.BreaksOff (Leg.layout addr legs) error received trace) :
    Interrupted addr legs error trace := by
  unfold Leg.layout at h
  split at h
  · exact absurd h id
  · rcases h.of_append with hstart | ⟨_, _, _, ended, hstart, hended, rfl, rfl⟩
    · rcases hstart.of_append with hopening | ⟨_, _, opened, _, hopening, hframe, rfl, rfl⟩
      · exact .opening hopening
      · obtain ⟨-, hopened⟩ := opened_of_showsAll hopening
        obtain ⟨before, count, after, r, carried, broken, hlegs, hcarried, hbroken, rfl⟩ :=
          Leg.exists_givenUp_of_breaksOff hframe
        rw [← List.append_assoc]
        exact .reading hlegs hopened hcarried hbroken
    · obtain ⟨_, _, opened, carried, hopening, hframe, rfl, rfl⟩ := Move.showsAll_append.mp hstart
      obtain ⟨-, hopened⟩ := opened_of_showsAll hopening
      exact .closing hopened (showsAll_frame hframe) hended

/--
A transfer that is given up in a read before its last leg. The words of that read are not gone in
time, or one of its bytes does not come in time; the legs after it are never queued.
-/
def Stranded (addr : UInt8) (legs : List Leg) (error : TransferError) (trace : List Event) : Prop :=
  ∃ before count after received opened carried broken, legs = before ++ .read count :: after
    ∧ after ≠ [] ∧ Opened opened ∧ Leg.CarriedOn addr before received carried
    ∧ Leg.GivenUp addr false count error broken ∧ trace = opened ++ carried ++ broken

/-- The words of a frame up to the count of a read that is not its last leg. -/
def CutAfterRead (addr : UInt8) (legs : List Leg) (words : List TxWord) : Prop :=
  ∃ before count after, legs = before ++ .read count :: after ∧ after ≠ []
    ∧ words = Leg.leadingWords addr before
      ++ [.start addr .read, .data (UInt8.ofNat count)]
    ∧ Leg.allWords addr legs = words ++ Leg.allWords addr after

/-- What a stranded transfer has queued ends with the count of the read. -/
theorem Stranded.cutAfterRead {addr : UInt8} {legs : List Leg} {error : TransferError}
    {trace : List Event} (h : Stranded addr legs error trace) :
    CutAfterRead addr legs (queued trace) := by
  obtain ⟨before, count, after, _, opened, carried, broken, hlegs, hafter, hopened, hcarried,
    hbroken, rfl⟩ := h
  have hmore : after.isEmpty = false := by simpa using hafter
  rw [queued_append, queued_append, hopened.queued, hcarried.queued, hbroken.queued,
    List.nil_append]
  refine ⟨before, count, after, hlegs, hafter, rfl, ?_⟩
  rw [hlegs, Leg.allWords_append addr before (by simp), Leg.allWords, hmore, List.append_assoc]

/--
An interrupted transfer has queued nothing; or it has been opened, and then it has queued its whole
frame or is stranded.
-/
theorem Interrupted.cases {addr : UInt8} {legs : List Leg} {error : TransferError}
    {trace : List Event} (h : Interrupted addr legs error trace) :
    queued trace = []
      ∨ (∃ opened rest, Opened opened ∧ trace = opened ++ rest)
        ∧ (queued trace = Leg.allWords addr legs ∨ Stranded addr legs error trace) := by
  cases h with
  | opening h => exact Or.inl (h.queued_eq_nil (by simp [Move.opening]))
  | @reading before after count received opened carried broken hlegs hopened hcarried hbroken =>
    refine Or.inr ⟨⟨opened, carried ++ broken, hopened, List.append_assoc ..⟩, ?_⟩
    cases after with
    | nil =>
      refine Or.inl ?_
      rw [queued_append, queued_append, hopened.queued, hcarried.queued, hbroken.queued, hlegs,
        Leg.allWords_append addr before (by simp), Leg.allWords, Leg.allWords, List.append_nil,
        List.nil_append]
    | cons next rest =>
      exact Or.inr ⟨before, count, next :: rest, received, opened, carried, broken, hlegs, by simp,
        hopened, hcarried, hbroken, rfl⟩
  | @closing _ _ opened carried ended hopened hcarried hended =>
    refine Or.inr ⟨⟨opened, carried ++ ended, hopened, List.append_assoc ..⟩, Or.inl ?_⟩
    have hquiet : ∀ word, .push word ∉ Move.closing (Leg.lastDirection legs) := by
      cases Leg.lastDirection legs <;> simp [Move.closing]
    rw [queued_append, queued_append, hopened.queued, hcarried.queued,
      hended.queued_eq_nil hquiet, List.nil_append, List.append_nil]

/-! ## Requests -/

namespace Request

/-- The request is a list of operations that may come in any order. -/
def isTransaction : Request → Bool
  | transaction .. => true
  | _ => false

/-- Only in a transaction does anything come after a read. -/
theorem isTransaction_of_legs_eq {q : Request} {before after : List Leg} {count : Nat}
    (h : q.legs = before ++ .read count :: after) (hafter : after ≠ []) :
    q.isTransaction = true := by
  have hmem : Leg.read count ∈ q.legs.dropLast := by
    rw [h, List.dropLast_append_of_ne_nil (by simp), List.dropLast_cons_of_ne_nil hafter]
    simp
  clear h
  cases q with
  | transaction => rfl
  | _ => simp [legs, operations, Leg.ofOperations, Leg.consOperation] at hmem

/--
What a request may leave in the transmit FIFO when it fails: nothing, or the whole frame, of which
the last word and no other carries STOP. Only a transaction may also leave the frame up to the
count of a read that is not its last leg.
-/
def MayLeave (q : Request) (words : List TxWord) : Prop :=
  words = []
    ∨ words = Leg.allWords q.addr q.legs
      ∧ words.map TxWord.isStop = List.replicate (words.length - 1) false ++ [true]
    ∨ q.isTransaction = true ∧ CutAfterRead q.addr q.legs words

end Request

namespace Engine

open Log (Logger)

variable {β κ : Type} [RegisterBlock β] [Logger κ]

/-- A request that fails has been refused without an access, or is interrupted. -/
theorem interrupted_of_serve {engine : Engine β κ} {request : Request} {allowance : Nat}
    {error : TransferError} {received : List UInt8}
    (hfailed : (serve request engine allowance).outcome = .ok ⟨.error error, received⟩) :
    accesses (serve request engine allowance).events = []
      ∨ (∀ op ∈ request.operations, op.isEmpty = false)
        ∧ Interrupted request.addr request.legs error
          (accesses (serve request engine allowance).events) := by
  have hserved : (serve request).Ensures engine fun ev reply _ => reply.result = .error error →
      accesses ev = [] ∨ (∀ op ∈ request.operations, op.isEmpty = false)
        ∧ Interrupted request.addr request.legs error (accesses ev) := by
    refine ensures_serve engine request (fun _ _ _ => Or.inl rfl) fun moves hplan => ?_
    obtain ⟨-, -, hfull, -, rfl⟩ := (plan_eq_ok_iff engine).mp hplan
    refine (ensures_performAll engine _).mono fun ev reply _ h hresult => Or.inr ?_
    rw [hresult] at h
    obtain ⟨done, move, rest, shown, last, hmoves, hdone, hfails, hev⟩ := h
    have hbroken := Move.breaksOff_of_fails rest hdone hfails
    rw [← hmoves, ← hev] at hbroken
    exact ⟨by simpa using hfull, interrupted_of_breaksOff hbroken⟩
  exact hserved allowance ⟨.error error, received⟩ hfailed rfl

/-- What a request that fails has queued. -/
theorem mayLeave_of_serve {engine : Engine β κ} {request : Request} {allowance : Nat}
    {error : TransferError} {received : List UInt8}
    (hfailed : (serve request engine allowance).outcome = .ok ⟨.error error, received⟩) :
    request.MayLeave (queued (accesses (serve request engine allowance).events)) := by
  rcases interrupted_of_serve hfailed with hrefused | ⟨hfull, hinterrupted⟩
  · rw [hrefused]
    exact Or.inl rfl
  · rcases hinterrupted.cases with hnone | ⟨-, hall | hstranded⟩
    · exact Or.inl hnone
    · by_cases hlegs : request.legs = []
      · exact Or.inl (by rw [hall, hlegs, Leg.allWords])
      · refine Or.inr (Or.inl ⟨hall, ?_⟩)
        rw [hall]
        exact Leg.map_isStop_allWords _ hlegs (Leg.ne_write_nil_of_mem_ofOperations hfull)
    · obtain ⟨before, count, after, hsplit, hafter, hcut⟩ := hstranded.cutAfterRead
      exact Or.inr (Or.inr ⟨Request.isTransaction_of_legs_eq hsplit hafter, before, count, after,
        hsplit, hafter, hcut⟩)

end Engine

end TwoWire
