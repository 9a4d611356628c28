import Mathlib
import TwoWire.Proofs.AlikeSession
import TwoWire.Proofs.Sim.History

/-!
# The output lines are a side band

`Controller.hideOutputs` forgets the output lines and the accesses to them. It commutes with every
access to the simulated controller but those to the output lines (`read_hideOutputs`,
`write_hideOutputs`), and with every change of the scene. So nothing else depends on the lines.

* `session_indifferent_to_outputs` — two sessions that differ only in when and how the lines are
  driven show the same but for the lines, and these end up as they were driven last
-/

namespace TwoWire

/-- The elements that are picked, in order. -/
def Trail.filter {α : Type} (t : Trail α) (p : α → Bool) : Trail α :=
  ⟨_, t.newestFirst.filter p, rfl⟩

theorem Trail.toList_filter {α : Type} (t : Trail α) (p : α → Bool) :
    (t.filter p).toList = t.toList.filter p := by
  simp [filter, toList]

/-- Results that come out the same under a function both fail, or both succeed. -/
theorem cases_of_map_eq {ε α β : Type} {f : α → β} {x y : Except ε α}
    (h : x.map f = y.map f) :
    (∃ error, x = .error error ∧ y = .error error) ∨ ∃ a b, x = .ok a ∧ y = .ok b ∧ f a = f b := by
  rcases x with error | a
  · rcases y with error' | b
    · obtain rfl := Except.error.inj h
      exact .inl ⟨error, rfl, rfl⟩
    · cases h
  · rcases y with error' | b
    · cases h
    · exact .inr ⟨a, b, rfl, rfl, Except.ok.inj h⟩

namespace Sim

open Log (Recorder)
open Proc (Alike)

/-! ## Controllers without their output lines -/

/-- The access drives the output lines. -/
def Access.isOutputs : Access → Bool
  | .outputs _ => true
  | _ => false

namespace Controller

variable {c c' next : Controller}

/-- The controller as if its output lines had never been driven. -/
def hideOutputs (c : Controller) : Controller :=
  { c with seen := c.seen.filter fun access => !access.isOutputs, outputs := 0 }

theorem accesses_hideOutputs (c : Controller) :
    c.hideOutputs.accesses = c.accesses.filter fun access => !access.isOutputs :=
  c.seen.toList_filter _

theorem updateSlave_hideOutputs (c : Controller) (addr : UInt8) (f : Slave → Slave) :
    c.hideOutputs.updateSlave addr f = (c.updateSlave addr f).hideOutputs := by
  rw [updateSlave_eq, updateSlave_eq]
  rfl

theorem closePhase_hideOutputs (c : Controller) :
    c.hideOutputs.closePhase = c.closePhase.hideOutputs := by
  have hphase : c.hideOutputs.phase = c.phase := rfl
  unfold closePhase
  rw [hphase]
  cases c.phase with
  | idle | writing | counting => rfl

theorem openPhase_hideOutputs (c : Controller) (addressByte : UInt8) :
    c.hideOutputs.openPhase addressByte = (c.openPhase addressByte).hideOutputs := by
  unfold openPhase
  simp only [closePhase_hideOutputs, updateSlave_eq]
  split
  · rfl
  · rfl

theorem takePayload_hideOutputs (c : Controller) (payload : UInt8) :
    c.hideOutputs.takePayload payload = (c.takePayload payload).map hideOutputs := by
  have hphase : c.hideOutputs.phase = c.phase := rfl
  have hcount : payload.toNat ≤ 65536 :=
    Nat.le_trans (Nat.le_of_lt payload.toNat_lt) (by decide)
  unfold takePayload
  rw [hphase]
  cases c.phase with
  | idle => rfl
  | writing addr bytes =>
    simp only [updateSlave_eq]
    rfl
  | counting addr =>
    simp only [fetch_eq _ _ hcount]
    rfl

theorem endTransaction_hideOutputs (c : Controller) :
    c.hideOutputs.endTransaction = c.endTransaction.hideOutputs := by
  unfold endTransaction
  rw [closePhase_hideOutputs]
  rfl

theorem accept_hideOutputs (c : Controller) (word : TxWord) :
    c.hideOutputs.accept word = (c.accept word).map hideOutputs := by
  have hnoted : { c.hideOutputs.note (.tx word) with txPending := c.hideOutputs.txLatency }
      = hideOutputs { c.note (.tx word) with txPending := c.txLatency } := rfl
  have hstop : ∀ taken : Controller,
      (if word.isStop then taken.hideOutputs.endTransaction else taken.hideOutputs)
        = (if word.isStop then taken.endTransaction else taken).hideOutputs := by
    intro taken
    split
    · exact endTransaction_hideOutputs taken
    · rfl
  unfold accept
  cases hstart : word.isStart with
  | true =>
    simp only [hnoted, openPhase_hideOutputs, ↓reduceIte, hstop]
    rfl
  | false =>
    simp only [hnoted, takePayload_hideOutputs, Bool.false_eq_true, ↓reduceIte]
    cases takePayload { c.note (.tx word) with txPending := c.txLatency } word.payload with
    | none => rfl
    | some taken =>
      simp only [Option.map_some, hstop]
      rfl

/-- **Reading anything but the output lines**, a controller does not notice them. -/
theorem read_hideOutputs (c : Controller) {width : Width} {offset : Nat}
    (h : (width, offset) ≠ (.word, Offset.outputs)) :
    c.hideOutputs.read width offset
      = (c.read width offset).map fun (value, next) => (value, next.hideOutputs) := by
  have htick : c.hideOutputs.tick = c.tick.hideOutputs := by
    have hpending : c.hideOutputs.txPending = c.txPending := rfl
    unfold tick
    rw [hpending]
    split
    · rfl
    · rfl
  cases width with
  | byte =>
    by_cases hstatus : offset = Offset.status
    · simp only [read, hstatus, ↓reduceIte, htick]
      rfl
    · by_cases hrx : offset = Offset.rxFifo
      · have hrest : c.hideOutputs.rx = c.rx := rfl
        simp only [read, hrx, ↓reduceIte, hrest]
        cases c.rx.pop? with
        | none => rfl
        | some popped => rfl
      · by_cases hcontrol : offset = Offset.control
        · simp only [read, hcontrol, ↓reduceIte]
          rfl
        · simp only [read, hstatus, hrx, hcontrol, ↓reduceIte]
          rfl
  | half => rfl
  | word =>
    have hoffset : offset ≠ Offset.outputs := fun heq => h (by rw [heq])
    simp only [read, hoffset, ↓reduceIte]
    rfl

/-- **Writing anything but the output lines**, a controller does not notice them. -/
theorem write_hideOutputs (c : Controller) {width : Width} {offset : Nat} (value : width.Value)
    (h : (width, offset) ≠ (.word, Offset.outputs)) :
    c.hideOutputs.write width offset value = (c.write width offset value).map hideOutputs := by
  cases width with
  | byte =>
    by_cases hcontrol : offset = Offset.control
    · simp only [write, hcontrol, ↓reduceIte]
      rfl
    · by_cases hthreshold : offset = Offset.rxThreshold
      · simp only [write, hthreshold, ↓reduceIte]
        rfl
      · simp only [write, hcontrol, hthreshold, ↓reduceIte]
        rfl
  | half =>
    by_cases htx : offset = Offset.txFifo
    · simp only [write, htx, ↓reduceIte]
      exact accept_hideOutputs c ⟨value⟩
    · simp only [write, htx, ↓reduceIte]
      rfl
  | word =>
    have hoffset : offset ≠ Offset.outputs := fun heq => h (by rw [heq])
    simp only [write, hoffset, ↓reduceIte]
    rfl

/-! ## What drives the output lines -/

theorem outputs_accept {word : TxWord} (h : c.accept word = .ok next) :
    next.outputs = c.outputs := by
  obtain ⟨taken, htaken, hstop⟩ := accept_cases h
  have hkept : taken.outputs = c.outputs := by
    cases htaken with
    | openRead | openWrite | byte | count => rfl
  rcases hstop with ⟨-, rfl⟩ | ⟨-, rfl⟩
  · exact hkept
  · obtain ⟨ended, hended, -⟩ := endTransaction_eq taken
    rw [hended]
    exact hkept

theorem outputs_read {width : Width} {offset : Nat} {value : width.Value}
    (h : c.read width offset = .ok (value, next)) : next.outputs = c.outputs := by
  rcases read_cases h with rfl | ⟨-, rx, access, rfl⟩ | rfl
  · unfold tick
    split
    · rfl
    · rfl
  · rfl
  · rfl

theorem outputs_write {width : Width} {offset : Nat} {value : width.Value}
    (haccess : (width, offset) ≠ (.word, Offset.outputs))
    (h : c.write width offset value = .ok next) : next.outputs = c.outputs := by
  rcases write_cases h with ⟨word, -, haccept⟩ | ⟨-, _, _, _, access, rfl⟩ | ⟨hdriven, -⟩
  · exact outputs_accept haccept
  · rfl
  · exact absurd hdriven haccess

/-! ## Controllers that agree -/

/-- Controllers that differ at most in the output lines, which stand at these values. -/
structure AgreeAside (value value' : UInt32) (c c' : Controller) : Prop where
  hidden : c'.hideOutputs = c.hideOutputs
  outputs : c.outputs = value
  outputs' : c'.outputs = value'

variable {value value' : UInt32}

/-- What commutes with hiding the output lines and leaves them alone keeps controllers agreeing. -/
theorem AgreeAside.map {f : Controller → Controller} (h : AgreeAside value value' c c')
    (hhide : ∀ c : Controller, (f c).hideOutputs = f c.hideOutputs)
    (houtputs : ∀ c : Controller, (f c).outputs = c.outputs) :
    AgreeAside value value' (f c) (f c') := by
  refine ⟨?_, (houtputs c).trans h.outputs, (houtputs c').trans h.outputs'⟩
  rw [hhide, hhide, h.hidden]

/-- **Controllers that agree answer alike**, the output lines aside. -/
theorem answersAlike : RegisterBlock.AnswersAlike (AgreeAside value value') where
  load := by
    rintro width offset haccess c c' h (_ | n)
    · exact ⟨rfl, rfl, h, rfl⟩
    have hread : (c'.read width offset).map (fun (value, next) => (value, next.hideOutputs))
        = (c.read width offset).map fun (value, next) => (value, next.hideOutputs) := by
      rw [← read_hideOutputs c haccess, ← read_hideOutputs c' haccess, h.hidden]
    simp only [RegisterBlock.load, RegisterBlock.read]
    rcases cases_of_map_eq hread with
      ⟨fault, hc', hc⟩ | ⟨⟨got', next'⟩, ⟨got, next⟩, hc', hc, heq⟩
    · rw [hc, hc']
      exact ⟨rfl, rfl, h, rfl⟩
    · obtain ⟨rfl, hnext⟩ := Prod.mk.inj heq
      rw [hc, hc']
      refine ⟨rfl, rfl, ⟨hnext, ?_, ?_⟩, rfl⟩
      · exact (outputs_read hc).trans h.outputs
      · exact (outputs_read hc').trans h.outputs'
  store := by
    rintro width offset written haccess c c' h (_ | n)
    · exact ⟨rfl, rfl, h, rfl⟩
    have hwrite : (c'.write width offset written).map hideOutputs
        = (c.write width offset written).map hideOutputs := by
      rw [← write_hideOutputs c written haccess, ← write_hideOutputs c' written haccess, h.hidden]
    simp only [RegisterBlock.store, RegisterBlock.write]
    rcases cases_of_map_eq hwrite with ⟨fault, hc', hc⟩ | ⟨next', next, hc', hc, hnext⟩
    · rw [hc, hc']
      exact ⟨rfl, rfl, h, rfl⟩
    · rw [hc, hc']
      refine ⟨rfl, rfl, ⟨hnext, ?_, ?_⟩, rfl⟩
      · exact (outputs_write haccess hc).trans h.outputs
      · exact (outputs_write haccess hc').trans h.outputs'

end Controller

/-! ## Sessions without their output lines -/

/-- The bench as if its output lines had never been driven. -/
def hideBench (bench : SimBench) : SimBench :=
  let engine := bench.frontEnd.hardware
  { bench with frontEnd := { bench.frontEnd with
    hardware := { engine with registers := engine.registers.hideOutputs } } }

/-- The answer without what it tells of the output lines. -/
def Answer.hideOutputs : Answer → Answer
  | .accesses values => .accesses (values.filter fun access => !access.isOutputs)
  | .scene control rxThreshold _ rxPending => .scene control rxThreshold 0 rxPending
  | answer => answer

/-- What a run shows besides the output lines. -/
def hideRun (run : Exec SimBench Answer) : Exec SimBench Answer :=
  ⟨run.events, run.outcome.map Answer.hideOutputs, hideBench run.state, run.left⟩

namespace Command

/-- What a command puts on the output lines. -/
def driven? : Command → Option UInt32
  | .bench (.engine (.bus (.setOutputs value))) => some value
  | .bench (.engine (.store .word offset value)) =>
    if offset = Offset.outputs then some value else none
  | _ => none

/-- The command reads the output lines back. -/
def readsBack : Command → Bool
  | .bench (.engine (.load .word offset)) => offset == Offset.outputs
  | _ => false

end Command

/-- Benches that differ at most in the output lines, which stand at these values. -/
def AgreeAside (value value' : UInt32) : SimBench → SimBench → Prop :=
  Rig.Matches (Engine.Matches (Controller.AgreeAside value value') Eq) Eq Eq

variable {value value' : UInt32} {bench bench' : SimBench}

theorem agreeAside_iff : AgreeAside value value' bench bench' ↔
    hideBench bench' = hideBench bench ∧ (controllerOf bench).outputs = value
      ∧ (controllerOf bench').outputs = value' := by
  constructor
  · rintro ⟨⟨⟨hconfig, hinitialized, hregisters, hlogger⟩, hfront⟩, hcodec, hlog⟩
    obtain ⟨hhidden, houtputs, houtputs'⟩ := hregisters
    refine ⟨?_, houtputs, houtputs'⟩
    unfold hideBench
    simp only [hconfig, hinitialized, hhidden, hlogger, hfront, hcodec, hlog]
  · rintro ⟨hhidden, houtputs, houtputs'⟩
    simp only [hideBench, Rig.mk.injEq, FrontEnd.mk.injEq, Engine.mk.injEq] at hhidden
    obtain ⟨⟨⟨hconfig, hinitialized, hregisters, hlogger⟩, hfront⟩, hcodec, hlog⟩ := hhidden
    exact ⟨⟨⟨hconfig, hinitialized, ⟨hregisters, houtputs, houtputs'⟩, hlogger.symm⟩, hfront.symm⟩,
      hcodec, hlog.symm⟩

namespace Command

/-- A command that sets the scene does so alike. -/
theorem alike_change {f : Controller → Controller}
    (hhide : ∀ c : Controller, (f c).hideOutputs = f c.hideOutputs)
    (houtputs : ∀ c : Controller, (f c).outputs = c.outputs) :
    Alike (AgreeAside value value') (change f) (change f) := by
  have hmodify : Alike (Controller.AgreeAside value value') (Proc.modify f) (Proc.modify f) :=
    Proc.alike_modify fun _ _ h => h.map hhide houtputs
  exact (Rig.alike_onHardware (Engine.alike_onRegisters hmodify)).bind fun _ => Proc.alike_pure _

/-- A command that looks at the controller sees the same besides the output lines. -/
theorem alike_look {f : Controller → Answer}
    (hhide : ∀ c : Controller, (f c).hideOutputs = f c.hideOutputs) :
    Alike (AgreeAside value value') (Answer.hideOutputs <$> look f)
      (Answer.hideOutputs <$> look f) := by
  intro bench bench' h n
  have hanswer : (f (controllerOf bench')).hideOutputs = (f (controllerOf bench)).hideOutputs := by
    rw [hhide, hhide]
    exact congrArg f h.frontEnd.hardware.registers.hidden
  exact ⟨rfl, congrArg Except.ok hanswer, h, rfl⟩

theorem sparesOutputs_of_aside {command : EngineCommand}
    (hdriven : driven? (.bench (.engine command)) = none)
    (hreads : readsBack (.bench (.engine command)) = false) : command.sparesOutputs = true := by
  cases command with
  | bus command =>
    cases command with
    | setOutputs value => cases hdriven
    | _ => rfl
  | load width offset =>
    cases width with
    | byte | half => rfl
    | word =>
      have hne : (offset == Offset.outputs) = false := hreads
      show (!(offset == Offset.outputs)) = true
      rw [hne]
      rfl
  | store width offset value =>
    cases width with
    | byte | half => rfl
    | word =>
      have hne : offset ≠ Offset.outputs := by
        rintro rfl
        cases hdriven
      exact bne_iff_ne.mpr hne
  | isInitialized | status | config | renew => rfl

theorem alike_benchCommand {command : BenchCommand} (hdriven : driven? (.bench command) = none)
    (hreads : readsBack (.bench command) = false) :
    Alike (AgreeAside value value') command.perform command.perform := by
  have hlogger : Log.TakesAlike (Eq : Recorder → Recorder → Prop) :=
    fun _ _ _ => Proc.alike_self _
  have hcodec : Log.TakesAlike (Eq : Recorder × Option Log.Console → _ → Prop) :=
    fun _ _ _ => Proc.alike_self _
  cases command with
  | engine command =>
    refine EngineCommand.alike_perform Controller.answersAlike hlogger hlogger hcodec command ?_
    intro hspares
    rw [sparesOutputs_of_aside hdriven hreads] at hspares
    cases hspares
  | renewCodec codec console =>
    refine (Proc.alike_modify ?_).bind fun _ => Proc.alike_pure _
    exact fun bench bench' h => ⟨h.frontEnd, rfl, rfl⟩
  | heard level text =>
    refine Proc.alike_get_bind fun bench bench' h => ?_
    rw [h.frontEnd.hardware.logger, h.frontEnd.logger, h.codecLogger]
    exact Proc.alike_pure _

/-- **A command that leaves the output lines alone does not notice them.** -/
theorem alike_perform {command : Command} (hdriven : command.driven? = none)
    (hreads : command.readsBack = false) :
    Alike (AgreeAside value value') (Answer.hideOutputs <$> command.perform)
      (Answer.hideOutputs <$> command.perform) := by
  cases command with
  | bench command =>
    exact ((alike_benchCommand hdriven hreads).bind fun _ => Proc.alike_pure _).map _
  | attach addr width =>
    exact (alike_change (f := (·.attach addr width)) (fun _ => rfl) fun _ => rfl).map _
  | setRegisters addr register bytes =>
    refine (alike_change ?_ ?_).map _
    · exact fun c => (c.updateSlave_hideOutputs addr _).symm
    · intro c
      rw [Controller.setRegisters, Controller.updateSlave_eq]
  | getRegisters addr register count => exact alike_look fun _ => rfl
  | latch addr armed =>
    refine (alike_change ?_ ?_).map _
    · exact fun c => (c.updateSlave_hideOutputs addr _).symm
    · intro c
      rw [Controller.addLatch, Controller.updateSlave_eq]
  | preload bytes =>
    exact (alike_change (f := (·.preload bytes)) (fun _ => rfl) fun _ => rfl).map _
  | setStuck stuck =>
    exact (alike_change (f := (·.setStuck stuck)) (fun _ => rfl) fun _ => rfl).map _
  | clear =>
    exact (alike_change (f := (·.clear)) (fun _ => rfl) fun _ => rfl).map _
  | accesses =>
    refine alike_look fun c => ?_
    rw [Controller.accesses_hideOutputs]
    rfl
  | transfers => exact alike_look fun _ => rfl
  | txWords =>
    refine alike_look fun c => ?_
    show Answer.words c.txWords = .words c.hideOutputs.txWords
    rw [Controller.txWords, Controller.txWords, Controller.accesses_hideOutputs,
      List.filterMap_filter]
    congr 2
    funext access
    cases access with
    | _ => rfl
  | scene => exact alike_look fun _ => rfl

/-- A command that drives the output lines does just that. -/
theorem perform_of_driven {command : Command} (hdriven : command.driven? = some value)
    (bench : SimBench) (n : Nat) :
    (command.perform bench (n + 1)).outcome = .ok (.bench .done)
      ∧ hideBench (command.perform bench (n + 1)).state = hideBench bench
      ∧ (controllerOf (command.perform bench (n + 1)).state).outputs = value := by
  unfold driven? at hdriven
  split at hdriven
  · next written =>
    obtain rfl := Option.some.inj hdriven
    exact ⟨rfl, rfl, rfl⟩
  · next offset written =>
    split at hdriven
    · next hoffset =>
      subst hoffset
      obtain rfl := Option.some.inj hdriven
      exact ⟨rfl, rfl, rfl⟩
    · cases hdriven
  · cases hdriven

end Command

/-! ## Sessions -/

/-- The runs of the commands that do not drive the output lines. -/
def otherRuns (commands : List (Command × Nat)) (runs : List (Exec SimBench Answer)) :
    List (Exec SimBench Answer) :=
  ((commands.zip runs).filter fun played => played.1.1.driven?.isNone).map Prod.snd

/-- The values that the output lines were driven to, in order. -/
def drivenValues (commands : List (Command × Nat)) : List UInt32 :=
  commands.filterMap fun command => command.1.driven?

section Session

variable {commands rest : List (Command × Nat)} {command : Command} {allowance : Nat}

theorem otherRuns_cons_of_none (h : command.driven? = none) (run : Exec SimBench Answer)
    (runs : List (Exec SimBench Answer)) :
    otherRuns ((command, allowance) :: rest) (run :: runs) = run :: otherRuns rest runs := by
  simp [otherRuns, h]

theorem otherRuns_cons_of_some (h : command.driven? = some value) (run : Exec SimBench Answer)
    (runs : List (Exec SimBench Answer)) :
    otherRuns ((command, allowance) :: rest) (run :: runs) = otherRuns rest runs := by
  simp [otherRuns, h]

/-- A command that leaves the output lines alone shows the same wherever they stand. -/
theorem hideRun_perform (hdriven : command.driven? = none) (hreads : command.readsBack = false)
    (h : hideBench bench' = hideBench bench) (n : Nat) :
    hideRun (command.perform bench n) = hideRun (command.perform bench' n)
      ∧ (controllerOf (command.perform bench n).state).outputs = (controllerOf bench).outputs := by
  have hagree := agreeAside_iff.mpr ⟨h, rfl, rfl⟩
  obtain ⟨hevents, houtcome, hstate, hleft⟩ := Command.alike_perform hdriven hreads hagree n
  obtain ⟨hhidden, houtputs, -⟩ := agreeAside_iff.mp hstate
  simp only [Proc.map_apply] at hevents houtcome hhidden houtputs hleft
  refine ⟨?_, houtputs⟩
  unfold hideRun
  rw [hevents, houtcome, hhidden, hleft]

/--
**Without the output lines, a session is the session of the other commands.**

The induction is on the commands; both sessions go on from benches that differ in the output lines
at most.
-/
theorem otherRuns_session (hreads : ∀ command ∈ commands, command.1.readsBack = false)
    (hallowed : ∀ command ∈ commands, command.1.driven? ≠ none → 0 < command.2)
    (h : hideBench bench' = hideBench bench) :
    let runs := play Command.perform bench commands
    let others := commands.filter fun command => command.1.driven?.isNone
    let runs' := play Command.perform bench' others
    (otherRuns commands runs).map hideRun = runs'.map hideRun
      ∧ hideBench (lastBench bench runs) = hideBench (lastBench bench' runs') := by
  intro runs others runs'
  induction commands generalizing bench bench' with
  | nil => exact ⟨rfl, h.symm⟩
  | cons command rest ih =>
    obtain ⟨command, allowance⟩ := command
    obtain ⟨hread, hreadRest⟩ := List.forall_mem_cons.mp hreads
    obtain ⟨hallow, hallowRest⟩ := List.forall_mem_cons.mp hallowed
    simp only [runs, runs', others]
    cases hdriven : command.driven? with
    | some value =>
      obtain ⟨n, rfl⟩ : ∃ n, allowance = n + 1 :=
        Nat.exists_eq_add_one.mpr (hallow (by simp [hdriven]))
      -- The other session does not have this command; the benches agree after it as before.
      obtain ⟨houtcome, hhidden, -⟩ := Command.perform_of_driven hdriven bench n
      rw [play_cons_of_ok houtcome, otherRuns_cons_of_some hdriven,
        List.filter_cons_of_neg (by simp [hdriven])]
      exact ih hreadRest hallowRest (h.trans hhidden.symm)
    | none =>
      obtain ⟨hrun, -⟩ := hideRun_perform hdriven hread h allowance
      have hstate := congrArg Exec.state hrun
      rw [List.filter_cons_of_pos (by simp [hdriven])]
      rcases cases_of_map_eq (congrArg Exec.outcome hrun) with
        ⟨halt, hout, hout'⟩ | ⟨answer, answer', hout, hout', -⟩
      · rw [play_cons_of_error hout, play_cons_of_error hout', otherRuns_cons_of_none hdriven]
        refine ⟨?_, hstate⟩
        simp [hrun, otherRuns]
      · rw [play_cons_of_ok hout, play_cons_of_ok hout', otherRuns_cons_of_none hdriven]
        obtain ⟨hruns, hlast⟩ := ih hreadRest hallowRest hstate.symm
        refine ⟨?_, hlast⟩
        rw [List.map_cons, List.map_cons, hrun, hruns]

/-- The output lines stand where they were driven last. -/
theorem outputs_lastBench (bench : SimBench)
    (hreads : ∀ command ∈ commands, command.1.readsBack = false)
    (hallowed : ∀ command ∈ commands, command.1.driven? ≠ none → 0 < command.2) :
    let runs := play Command.perform bench commands
    (controllerOf (lastBench bench runs)).outputs
      = (drivenValues (commands.take runs.length)).getLast?.getD (controllerOf bench).outputs := by
  intro runs
  induction commands generalizing bench with
  | nil => rfl
  | cons command rest ih =>
    obtain ⟨command, allowance⟩ := command
    obtain ⟨hread, hreadRest⟩ := List.forall_mem_cons.mp hreads
    obtain ⟨hallow, hallowRest⟩ := List.forall_mem_cons.mp hallowed
    simp only [runs]
    cases hdriven : command.driven? with
    | some value =>
      obtain ⟨n, rfl⟩ : ∃ n, allowance = n + 1 :=
        Nat.exists_eq_add_one.mpr (hallow (by simp [hdriven]))
      obtain ⟨houtcome, -, houtputs⟩ := Command.perform_of_driven hdriven bench n
      have hlast := ih (command.perform bench (n + 1)).state hreadRest hallowRest
      rw [houtputs] at hlast
      rw [play_cons_of_ok houtcome]
      simpa [lastBench, drivenValues, hdriven, List.getLast?_cons] using hlast
    | none =>
      have hbench : hideBench bench = hideBench bench := rfl
      obtain ⟨-, houtputs⟩ := hideRun_perform hdriven hread hbench allowance
      cases hout : (command.perform bench allowance).outcome with
      | error halt =>
        rw [play_cons_of_error hout]
        simpa [lastBench, drivenValues, hdriven] using houtputs
      | ok answer =>
        have hlast := ih (command.perform bench allowance).state hreadRest hallowRest
        rw [houtputs] at hlast
        rw [play_cons_of_ok hout]
        simpa [lastBench, drivenValues, hdriven] using hlast

end Session

/--
**Driving the output lines has no influence on anything else.**

Take two sessions, from one bench, that are the same but for the commands that drive the output
lines. The other commands come to the same: the same accesses, delays and records in the same order,
the same answers and buffers, and after each of them the same controller with the same slaves and
transfers. Only the output lines and the accesses to them may differ. The lines end up as they
were driven last, or as they were if they were not driven.
-/
theorem session_indifferent_to_outputs (bench : SimBench)
    {commands commands' : List (Command × Nat)}
    (hsame : commands.filter (fun command => command.1.driven?.isNone)
      = commands'.filter fun command => command.1.driven?.isNone)
    (hreads : ∀ command ∈ commands ++ commands', command.1.readsBack = false)
    (hallowed : ∀ command ∈ commands ++ commands', command.1.driven? ≠ none → 0 < command.2) :
    let runs := play Command.perform bench commands
    let runs' := play Command.perform bench commands'
    (otherRuns commands runs).map hideRun = (otherRuns commands' runs').map hideRun
      ∧ hideBench (lastBench bench runs) = hideBench (lastBench bench runs')
      ∧ (controllerOf (lastBench bench runs)).outputs
        = (drivenValues (commands.take runs.length)).getLast?.getD
          (controllerOf bench).outputs := by
  intro runs runs'
  obtain ⟨hread, hread'⟩ := List.forall_mem_append.mp hreads
  obtain ⟨hallow, hallow'⟩ := List.forall_mem_append.mp hallowed
  have hbench : hideBench bench = hideBench bench := rfl
  obtain ⟨hruns, hlast⟩ := otherRuns_session hread hallow hbench
  obtain ⟨hruns', hlast'⟩ := otherRuns_session hread' hallow' hbench
  rw [hsame] at hruns hlast
  exact ⟨hruns.trans hruns'.symm, hlast.trans hlast'.symm, outputs_lastBench bench hread hallow⟩

/-- Lines driven before bring-up and around a transfer, through the engine and directly. -/
theorem lines_driven_around_a_transfer :
    let controller := (Controller.ofLatency 1 1).attach 0x20 1
    let bench : SimBench := .ofParts (.ofParts ⟨15, .bounded 2 1⟩ controller .empty) {} none
    let drive (value : UInt32) : Command × Nat :=
      (.bench (.engine (.bus (.setOutputs value))), 1)
    let bringUp : Command × Nat := (.bench (.engine (.bus .bringUp)), 3)
    let transfer : Command × Nat :=
      (.bench (.engine (.bus (.forward (.writeRead 0x20 [7] [0, 0])))), 99)
    let commands := [drive 5, bringUp, (.bench (.engine (.store .word Offset.outputs 6)), 1),
      transfer, drive 9, (.accesses, 0)]
    let commands' := [bringUp, transfer, drive 1, (.accesses, 0), drive 2]
    let runs := play Command.perform bench commands
    let runs' := play Command.perform bench commands'
    commands.filter (fun command => command.1.driven?.isNone)
        = commands'.filter (fun command => command.1.driven?.isNone)
      ∧ (∀ command ∈ commands ++ commands', command.1.readsBack = false)
      ∧ (∀ command ∈ commands ++ commands', command.1.driven? ≠ none → 0 < command.2)
      ∧ (otherRuns commands runs).map hideRun = (otherRuns commands' runs').map hideRun
      ∧ (otherRuns commands runs).length = 3
      ∧ (controllerOf (lastBench bench runs)).outputs = 9 := by
  intro controller bench drive bringUp transfer commands commands' runs runs'
  have hsame : commands.filter (fun command => command.1.driven?.isNone)
      = commands'.filter (fun command => command.1.driven?.isNone) := rfl
  have hreads : ∀ command ∈ commands ++ commands', command.1.readsBack = false := by decide
  have hallowed : ∀ command ∈ commands ++ commands', command.1.driven? ≠ none → 0 < command.2 := by
    decide
  have hlength : runs.length = 6 := by cbv
  obtain ⟨hruns, -, houtputs⟩ := session_indifferent_to_outputs bench hsame hreads hallowed
  refine ⟨hsame, hreads, hallowed, hruns, by cbv, houtputs.trans ?_⟩
  rw [hlength]
  rfl

end Sim

end TwoWire
