import Mathlib
import TwoWire.Proofs.Refusal
import TwoWire.Proofs.Sim.Contract

/-!
# No traffic before bring-up

An engine that has not been brought up refuses every request, so it touches nothing but the output
lines and the status (`Engine.Inert`). Bringing it up makes three writes in a row, and only after
the last of them does it count as brought up (`Engine.Climbs`). `Career` is what an engine has shown
since it was built: a fresh engine on the same registers starts over, even if the controller is
enabled already.

* `traffic_after_bringUp` — in every session, whatever moves bytes over the bus comes after the
  bring-up of the engine at work
-/

namespace TwoWire

open Event
open Log (Logger)
open Proc (Always Chained)

/-! ## Settings -/

namespace Config

/-- The threshold asked for last, or the one that a fresh draft has. -/
def lastThreshold (settings : List Setting) : UInt8 :=
  let thresholds := settings.filterMap fun
    | .threshold depth => some depth
    | _ => none
  thresholds.getLast?.getD rxThresholdMax

/-- The threshold is the one asked for last, cut to what the controller accepts. -/
theorem rxThreshold_ofSettings (settings : List Setting) :
    (ofSettings settings).rxThreshold = min (lastThreshold settings) rxThresholdMax := by
  have hdraft : ∀ draft : Draft, (settings.foldl Draft.set draft).rxThreshold
      = (settings.filterMap fun
        | .threshold depth => some depth
        | _ => none).getLast?.getD draft.rxThreshold := by
    induction settings with
    | nil => exact fun _ => rfl
    | cons setting rest ih =>
      intro draft
      rw [List.foldl_cons, ih]
      cases setting with
      | threshold depth => simp [List.getLast?_cons, Draft.set]
      | wait | timeout => rfl
  show min (settings.foldl Draft.set {}).rxThreshold rxThresholdMax = _
  rw [hdraft]
  rfl

end Config

/-! ## Events -/

/-- The last write of a bring-up. -/
def enableWrite : Event := .write .byte Offset.control Control.enable

/-- The writes that bring a controller up. -/
def bringUpWrites (depth : UInt8) : List Event :=
  [.write .byte Offset.rxThreshold depth, .write .byte Offset.control Control.txReset, enableWrite]

namespace Event

/-- The event moves bytes over the bus: it queues a word, or takes a byte that was received. -/
def isTraffic : Event → Bool
  | .write _ offset _ => offset == Offset.txFifo
  | .read _ offset _ => offset == Offset.rxFifo
  | _ => false

/-- The event drives the output lines or reads the status. -/
def isSideBand : Event → Bool
  | .write .word offset _ => offset == Offset.outputs
  | .read .byte offset _ => offset == Offset.status
  | _ => false

theorem isAccess_of_isTraffic {event : Event} (h : event.isTraffic = true) :
    event.isAccess = true := by
  cases event with
  | read | write => rfl
  | sleep | log | call => cases h

theorem not_isTraffic_of_isSideBand {event : Event} (h : event.isSideBand = true) :
    ¬event.isTraffic = true := by
  intro htraffic
  cases event with
  | read width offset value =>
    cases width with
    | byte =>
      obtain rfl : offset = Offset.status := beq_iff_eq.mp h
      cases htraffic
    | half | word => cases h
  | write width offset value =>
    cases width with
    | word =>
      obtain rfl : offset = Offset.outputs := beq_iff_eq.mp h
      cases htraffic
    | byte | half => cases h
  | sleep | log | call => cases h

theorem not_isTraffic_of_mem_bringUpWrites {event : Event} {depth : UInt8}
    (h : event ∈ bringUpWrites depth) : ¬event.isTraffic = true := by
  have hall : ∀ event ∈ bringUpWrites depth, event.isTraffic = false := by
    simp [bringUpWrites, enableWrite, isTraffic, Offset.rxThreshold, Offset.control, Offset.txFifo]
  rw [hall event h]
  exact Bool.false_ne_true

end Event

namespace Engine

variable {β κ : Type}

/-! ## Apart from bring-up -/

/-- The settings stay; an engine that is not brought up touches its side band at most. -/
structure Inert (engine : Engine β κ) (events : List Event) (after : Engine β κ) : Prop where
  settings : SameSettings engine events after
  sideBand : engine.initialized = false →
    ∀ event ∈ events, event.isAccess = true → event.isSideBand = true

theorem chained_inert : Chained (Inert : Engine β κ → List Event → Engine β κ → Prop) := by
  constructor
  · exact fun engine => ⟨⟨rfl, rfl⟩, fun _ _ hmem => (List.not_mem_nil hmem).elim⟩
  · intro engine mid after ev ev' h h'
    have hsettings : SameSettings engine (ev ++ ev') after :=
      ⟨h'.settings.1.trans h.settings.1, h'.settings.2.trans h.settings.2⟩
    refine ⟨hsettings, fun hinit => List.forall_mem_append.mpr ⟨h.sideBand hinit, ?_⟩⟩
    exact h'.sideBand (h.settings.2.trans hinit)

/-- Without an access, nothing is touched. -/
theorem inert_of_accesses_nil {engine : Engine β κ} {events : List Event}
    (h : accesses events = []) : Inert engine events engine := by
  refine ⟨⟨rfl, rfl⟩, fun _ event hmem haccess => ?_⟩
  have hnone : event ∈ accesses events := List.mem_filter.mpr ⟨hmem, haccess⟩
  rw [h] at hnone
  cases hnone

section Registers

variable [RegisterBlock β]

theorem always_status_inert : Always Inert (status : Proc (Engine β κ) Status) := by
  have hload : Always (fun (_ : β) ev _ => ∀ event ∈ ev, event.isSideBand = true)
      (RegisterBlock.load .byte Offset.status : Proc β UInt8) :=
    RegisterBlock.always_load_of_read (fun _ => List.forall_mem_nil _)
      fun _ => List.forall_mem_singleton.mpr rfl
  have hread : Always Inert
      (onRegisters (RegisterBlock.load .byte Offset.status) : Proc (Engine β κ) UInt8) :=
    hload.zoom fun _ _ _ h => ⟨⟨rfl, rfl⟩, fun _ event hmem _ => h event hmem⟩
  exact hread.bind chained_inert fun _ => Proc.always_pure chained_inert _

theorem always_setOutputs_inert (value : UInt32) :
    Always Inert (setOutputs value : Proc (Engine β κ) Unit) := by
  have hstore : Always (fun (_ : β) ev _ => ∀ event ∈ ev, event.isSideBand = true)
      (RegisterBlock.store .word Offset.outputs value : Proc β Unit) :=
    RegisterBlock.always_store_of_write (fun _ => List.forall_mem_nil _)
      fun _ => List.forall_mem_singleton.mpr rfl
  exact hstore.zoom fun _ _ _ h => ⟨⟨rfl, rfl⟩, fun _ event hmem _ => h event hmem⟩

variable [Logger κ]

/-- An engine that is not brought up refuses a request at once. -/
theorem always_serve_inert (request : Request) :
    Always Inert (serve request : Proc (Engine β κ) (Reply TransferError)) := by
  intro engine n
  refine ⟨always_serve leaves_sameSettings request engine n, fun hinit => ?_⟩
  rw [serve_of_refuses (.notInitialized hinit)]
  exact fun _ hmem => (List.not_mem_nil hmem).elim

theorem serves_inert : Master.Serves (Engine β κ) Inert fun _ => True where
  toChained := chained_inert
  serve request := ⟨always_serve_inert request, fun _ _ _ _ => trivial⟩
  log _ part level text := inert_of_accesses_nil (accesses_log part level text [])
  sleep _ us := inert_of_accesses_nil (accesses_sleeps .codec (sleepParts us))

end Registers

/-! ## Bring-up -/

/-- Of these writes the first ones are made; after all of them the engine is brought up. -/
structure Climbs (writes : List Event) (engine : Engine β κ) (events : List Event)
    (after : Engine β κ) : Prop where
  config : after.config = engine.config
  accesses : Event.accesses events <+: writes
  kept : engine.initialized = true → after.initialized = true
  raised : after.initialized = true → engine.initialized = true ∨ writes <+: events
  enabled : enableWrite ∈ events → after.initialized = true

section Registers

variable [RegisterBlock β]

/-- A write is made, or it ends the run. -/
theorem onRegisters_store_cases (width : Width) (offset : Nat) (value : width.Value)
    (engine : Engine β κ) (n : Nat) :
    let run := (onRegisters (RegisterBlock.store width offset value) : Proc (Engine β κ) Unit)
      engine n
    run.events = [] ∧ (∃ halt, run.outcome = .error halt)
      ∨ run.events = [.write width offset value] ∧ run.outcome = .ok () := by
  intro run
  cases n with
  | zero => exact .inl ⟨rfl, _, rfl⟩
  | succ n =>
    simp only [run, onRegisters, Proc.zoom, RegisterBlock.store]
    cases RegisterBlock.write width offset value engine.registers with
    | error fault => exact .inl ⟨rfl, _, rfl⟩
    | ok next => exact .inr ⟨rfl, rfl⟩

/-- One more write to make first. It is the last one if the engine is brought up by what follows. -/
theorem climbs_store {writes : List Event} {width : Width} {offset : Nat} {value : width.Value}
    {p : Proc (Engine β κ) Unit} (hp : Always (Climbs writes) p)
    (hlast : Event.write width offset value = enableWrite →
      ∀ engine n, (p engine n).state.initialized = true) :
    Always (Climbs (.write width offset value :: writes))
      (onRegisters (RegisterBlock.store width offset value) >>= fun _ => p) := by
  intro engine n
  let stored := (onRegisters (RegisterBlock.store width offset value) : Proc (Engine β κ) Unit)
    engine n
  rcases onRegisters_store_cases width offset value engine n with
    ⟨hevents, halt, hout⟩ | ⟨hevents, hout⟩
  · rw [Proc.bind_of_halt hout, hevents]
    exact ⟨rfl, List.nil_prefix, id, .inl, fun hmem => (List.not_mem_nil hmem).elim⟩
  · rw [Proc.bind_of_ok hout, hevents]
    have hrest := hp stored.state stored.left
    refine ⟨hrest.config, ?_, hrest.kept, fun hafter => ?_, fun hmem => ?_⟩
    · exact (List.prefix_cons_inj _).mpr hrest.accesses
    · rcases hrest.raised hafter with hinit | hwrites
      · exact .inl hinit
      · exact .inr ((List.prefix_cons_inj _).mpr hwrites)
    · rcases List.mem_cons.mp hmem with heq | hmem
      · exact hlast heq.symm _ _
      · exact hrest.enabled hmem

variable [Logger κ]

/-- **Bring-up makes its three writes in a row**, and counts once the last of them is made. -/
theorem always_bringUp_climbs : Always
    (fun engine events after =>
      Climbs (bringUpWrites engine.config.rxThreshold) engine events after)
    (bringUp : Proc (Engine β κ) Unit) := by
  intro engine n
  unfold bringUp
  rw [Proc.get_bind_apply]
  let mark : Proc (Engine β κ) Unit := do
    Proc.modify fun engine => { engine with initialized := true }
    log .info ["axi-iic: enabled, rx threshold ", Hex.marked 2 engine.config.rxThreshold.toNat]
  have hmarked : ∀ engine n, (mark engine n).state.initialized = true := fun _ _ => rfl
  have hmark : Always (Climbs []) mark := by
    intro engine n
    have hrecord : Event.accesses (mark engine n).events = [] := by
      show Event.accesses (Log.note .engine .info _ engine.logger n).events = []
      unfold Log.note
      split
      · rfl
      · rfl
    refine ⟨rfl, ?_, fun _ => hmarked engine n, fun _ => .inr List.nil_prefix,
      fun _ => hmarked engine n⟩
    rw [hrecord]
  -- From the last write back to the first; only the last one is followed by the mark.
  have henable : Always (Climbs [enableWrite])
      (onRegisters (RegisterBlock.store .byte Offset.control Control.enable) >>= fun _ => mark) :=
    climbs_store hmark fun _ => hmarked
  have hreset : Always (Climbs [.write .byte Offset.control Control.txReset, enableWrite])
      (do
        onRegisters (RegisterBlock.store .byte Offset.control Control.txReset)
        onRegisters (RegisterBlock.store .byte Offset.control Control.enable)
        mark) :=
    climbs_store henable fun heq => absurd heq (by decide)
  exact climbs_store hreset (fun heq => absurd (Event.write.inj heq).2.1 (by decide)) engine n

end Registers

end Engine

/-! ## Careers -/

/-- The settings of an engine, and what it has shown since it was built. -/
structure Career where
  config : Config
  shown : List Event

namespace Career

variable {β κ κ' κ'' : Type} {career : Career} {engine after : Engine β κ} {events : List Event}
  {command : EngineCommand}

/-- The career after a command, or the one that a new engine starts. -/
def next (career : Career) (command : EngineCommand) (events : List Event) : Career :=
  match command with
  | .renew settings => ⟨settings, []⟩
  | _ => { career with shown := career.shown ++ events }

/-- The engine has made the writes of a bring-up, with the threshold of its settings. -/
def BroughtUp (career : Career) : Prop :=
  bringUpWrites career.config.rxThreshold <:+: career.shown

/-- The engine is one that can have come out of the career. -/
structure Fits (career : Career) (engine : Engine β κ) : Prop where
  config : engine.config = career.config
  broughtUp : engine.initialized = true → career.BroughtUp
  enabled : enableWrite ∈ career.shown → engine.initialized = true

theorem Fits.initialized_iff (h : career.Fits engine) :
    engine.initialized = true ↔ career.BroughtUp := by
  refine ⟨h.broughtUp, fun hwrites => h.enabled (hwrites.subset ?_)⟩
  simp [bringUpWrites]

/-- What an engine is bound to when it carries out a command. -/
structure Heeds (career : Career) (engine : Engine β κ) (command : EngineCommand)
    (events : List Event) : Prop where
  /-- What moves bytes over the bus comes after a bring-up in the same career. -/
  traffic : ∀ before event rest, events = before ++ event :: rest → event.isTraffic = true →
    bringUpWrites career.config.rxThreshold <:+: career.shown ++ before
  /-- Before it is brought up, and but for that, the engine touches its side band only. -/
  sideBand : engine.initialized = false →
    command = .bus .bringUp ∧ accesses events <+: bringUpWrites career.config.rxThreshold
      ∨ ∀ event ∈ events, event.isAccess = true → event.isSideBand = true

theorem BroughtUp.append (h : career.BroughtUp) (events : List Event) :
    bringUpWrites career.config.rxThreshold <:+: career.shown ++ events :=
  h.trans (List.prefix_append career.shown events).isInfix

theorem Fits.of_inert (h : career.Fits engine) (hinert : engine.Inert events after) :
    career.Heeds engine command events
      ∧ Fits { career with shown := career.shown ++ events } after := by
  obtain ⟨hconfig, hinit⟩ := hinert.settings
  refine ⟨⟨?_, fun hnot => .inr (hinert.sideBand hnot)⟩, ?_⟩
  · -- Before bring-up only the side band is touched, and traffic is none of it.
    rintro before event rest rfl htraffic
    cases hready : engine.initialized with
    | true => exact (h.broughtUp hready).append before
    | false =>
      have hside := hinert.sideBand hready event (by simp) (isAccess_of_isTraffic htraffic)
      exact absurd htraffic (not_isTraffic_of_isSideBand hside)
  · refine ⟨hconfig.trans h.config, fun hready => ?_, fun hmem => ?_⟩
    · exact (h.broughtUp (hinit ▸ hready)).append events
    · rw [hinit]
      rcases List.mem_append.mp hmem with hmem | hmem
      · exact h.enabled hmem
      · cases hready : engine.initialized with
        | true => rfl
        | false => cases hinert.sideBand hready enableWrite hmem rfl

theorem Fits.of_climbs (h : career.Fits engine)
    (hclimbs : engine.Climbs (bringUpWrites engine.config.rxThreshold) events after) :
    career.Heeds engine (.bus .bringUp) events
      ∧ Fits { career with shown := career.shown ++ events } after := by
  rw [h.config] at hclimbs
  refine ⟨⟨?_, fun _ => .inl ⟨rfl, hclimbs.accesses⟩⟩, ?_⟩
  · rintro before event rest rfl htraffic
    have hmem : event ∈ accesses (before ++ event :: rest) :=
      List.mem_filter.mpr ⟨by simp, isAccess_of_isTraffic htraffic⟩
    exact absurd htraffic (not_isTraffic_of_mem_bringUpWrites (hclimbs.accesses.subset hmem))
  · refine ⟨hclimbs.config.trans h.config, fun hready => ?_, fun hmem => ?_⟩
    · rcases hclimbs.raised hready with hinit | hwrites
      · exact (h.broughtUp hinit).append events
      · exact hwrites.isInfix.trans (List.suffix_append career.shown events).isInfix
    · rcases List.mem_append.mp hmem with hmem | hmem
      · exact hclimbs.kept (h.enabled hmem)
      · exact hclimbs.enabled hmem

variable [RegisterBlock β] [Logger κ] [Logger κ'] [Logger κ'']

theorem always_perform_climbs : Always
    (Rig.OnHardware fun engine events after =>
      Engine.Climbs (bringUpWrites engine.config.rxThreshold) engine events after)
    (EngineCommand.perform (.bus .bringUp) : Proc (Rig (Engine β κ) κ' κ'') _) := by
  have hmap : (Master.bringUp : Proc (Engine β κ) (Except TransferError Unit))
      = (fun _ => .ok ()) <$> Engine.bringUp := (map_eq_pure_bind _ _).symm
  have hperform : (EngineCommand.perform (.bus .bringUp) : Proc (Rig (Engine β κ) κ' κ'') _)
      = Answer.ofUnit <$> Rig.onHardware Master.bringUp := (map_eq_pure_bind _ _).symm
  rw [hperform, hmap]
  exact Always.map fun rig n => Engine.always_bringUp_climbs rig.frontEnd.hardware n

/-- **No command gets ahead of the bring-up**, and the career goes on. -/
theorem Fits.perform {rig : Rig (Engine β κ) κ' κ''} (h : career.Fits rig.frontEnd.hardware)
    (hdirect : command.isDirect = false) (n : Nat) :
    career.Heeds rig.frontEnd.hardware command (command.perform rig n).events
      ∧ (career.next command (command.perform rig n).events).Fits
        (command.perform rig n).state.frontEnd.hardware := by
  -- Bring-up climbs, a renewal starts over, and everything else is inert.
  by_cases hbringUp : command = .bus .bringUp
  · subst hbringUp
    exact h.of_climbs (always_perform_climbs rig n)
  · by_cases hrenew : ∃ settings, command = .renew settings
    · obtain ⟨settings, rfl⟩ := hrenew
      refine ⟨⟨?_, fun _ => .inr (List.forall_mem_nil _)⟩, ⟨rfl, nofun, nofun⟩⟩
      intro before event rest hsplit
      have hnil : before ++ event :: rest = [] := hsplit.symm
      exact absurd hnil (by simp)
    · have hnext : ∀ events,
          career.next command events = { career with shown := career.shown ++ events } := by
        intro events
        unfold next
        split
        · next settings => exact absurd ⟨settings, rfl⟩ hrenew
        · rfl
      have hinert : Proc.Upholds (Rig.OnHardware Engine.Inert) (fun _ => True)
          (command.perform : Proc (Rig (Engine β κ) κ' κ'') _) := by
        refine EngineCommand.upholds_perform_of (fun _ _ => trivial) (fun _ _ => trivial)
          Engine.serves_inert ⟨Engine.always_status_inert, fun _ _ _ _ => trivial⟩ command
          ?_ ?_ ?_ ?_ ?_
        · exact fun heq => absurd heq hbringUp
        · exact fun value _ => ⟨Engine.always_setOutputs_inert value, fun _ _ _ _ => trivial⟩
        · exact fun settings heq => absurd ⟨settings, heq⟩ hrenew
        · rintro width offset rfl
          cases hdirect
        · rintro width offset value rfl
          cases hdirect
      rw [hnext]
      exact h.of_inert (hinert.always rig n)

end Career

/-! ## Sessions -/

section Session

variable {β κ κ' κ'' : Type}

/-- The engine after some commands were played. -/
def engineAfter (rig : Rig (Engine β κ) κ' κ'')
    (played : List (EngineCommand × Exec (Rig (Engine β κ) κ' κ'') (Answer TransferError))) :
    Engine β κ :=
  (played.foldl (fun _ step => step.2.state) rig).frontEnd.hardware

/-- The career after some commands were played. -/
def careerAfter (career : Career)
    (played : List (EngineCommand × Exec (Rig (Engine β κ) κ' κ'') (Answer TransferError))) :
    Career :=
  played.foldl (fun career step => career.next step.1 step.2.events) career

variable [RegisterBlock β] [Logger κ] [Logger κ'] [Logger κ'']

/-- The commands of a session with their runs. -/
def playedCommands (rig : Rig (Engine β κ) κ' κ'') (commands : List (EngineCommand × Nat)) :
    List (EngineCommand × Exec (Rig (Engine β κ) κ' κ'') (Answer TransferError)) :=
  (commands.map Prod.fst).zip (play EngineCommand.perform rig commands)

theorem playedCommands_cons (rig : Rig (Engine β κ) κ' κ'') (command : EngineCommand)
    (allowance : Nat) (rest : List (EngineCommand × Nat)) :
    ∃ later, playedCommands rig ((command, allowance) :: rest)
        = (command, command.perform rig allowance) :: later
      ∧ (later = [] ∨ later = playedCommands (command.perform rig allowance).state rest) := by
  unfold playedCommands
  cases hout : (command.perform rig allowance).outcome with
  | error halt =>
    rw [play_cons_of_error hout]
    exact ⟨[], by simp, .inl rfl⟩
  | ok answer =>
    rw [play_cons_of_ok hout]
    exact ⟨_, rfl, .inr rfl⟩

/-- Every command of a session heeds the career that its engine has had so far. -/
theorem Career.Fits.session {career : Career} {rig : Rig (Engine β κ) κ' κ''}
    {commands : List (EngineCommand × Nat)} (h : career.Fits rig.frontEnd.hardware)
    (hdirect : ∀ command ∈ commands, command.1.isDirect = false) {earlier later}
    {command : EngineCommand} {run : Exec (Rig (Engine β κ) κ' κ'') (Answer TransferError)}
    (hsplit : playedCommands rig commands = earlier ++ (command, run) :: later) :
    (careerAfter career earlier).Fits (engineAfter rig earlier)
      ∧ (careerAfter career earlier).Heeds (engineAfter rig earlier) command run.events := by
  induction commands generalizing career rig earlier with
  | nil => exact absurd hsplit.symm (by simp [playedCommands])
  | cons first rest ih =>
    obtain ⟨first, allowance⟩ := first
    obtain ⟨hfirst, hrest⟩ := List.forall_mem_cons.mp hdirect
    obtain ⟨hheeds, hfits⟩ := h.perform hfirst allowance
    -- What comes after the first command is a session in which that is part of the career.
    obtain ⟨others, hplayed, hothers⟩ := playedCommands_cons rig first allowance rest
    rw [hplayed] at hsplit
    cases earlier with
    | nil =>
      obtain ⟨hstep, -⟩ := List.cons.inj hsplit
      obtain ⟨rfl, rfl⟩ := Prod.mk.inj hstep
      exact ⟨h, hheeds⟩
    | cons step earlier =>
      obtain ⟨rfl, htail⟩ := List.cons.inj hsplit
      rcases hothers with rfl | rfl
      · exact absurd htail.symm (by simp)
      · exact ih hfits hrest htail

/--
**Nothing moves over the bus before the bring-up of the engine at work.**

Take any session of an engine that was just built, without direct accesses, and any of its commands.
The engine has the settings that it was built with; it counts as brought up just if it has made the
three writes of a bring-up since then; each word that the command queues and each byte that it takes
comes after those; and without them it touches the output lines and the status only, unless it is
the command to make them. So it is no matter whether the controller was enabled by an engine before.
-/
theorem traffic_after_bringUp {rig : Rig (Engine β κ) κ' κ''} {config : Config} {registers : β}
    {logger : κ} (hnew : rig.frontEnd.hardware = .ofParts config registers logger)
    {commands : List (EngineCommand × Nat)}
    (hdirect : ∀ command ∈ commands, command.1.isDirect = false) :
    ∀ earlier command run later,
      playedCommands rig commands = earlier ++ (command, run) :: later →
      let engine := engineAfter rig earlier
      let career := careerAfter ⟨config, []⟩ earlier
      let depth := career.config.rxThreshold
      engine.config = career.config
        ∧ (∀ settings, career.config = .ofSettings settings →
          depth = min (Config.lastThreshold settings) rxThresholdMax)
        ∧ (engine.initialized = true ↔ bringUpWrites depth <:+: career.shown)
        ∧ (∀ before event rest, run.events = before ++ event :: rest → event.isTraffic = true →
          bringUpWrites depth <:+: career.shown ++ before)
        ∧ (engine.initialized = false →
          command = .bus .bringUp ∧ accesses run.events <+: bringUpWrites depth
            ∨ ∀ event ∈ run.events, event.isAccess = true → event.isSideBand = true) := by
  intro earlier command run later hsplit
  have hstart : Career.Fits ⟨config, []⟩ rig.frontEnd.hardware := by
    rw [hnew]
    exact ⟨rfl, nofun, nofun⟩
  obtain ⟨hfits, hheeds⟩ := hstart.session hdirect hsplit
  refine ⟨hfits.config, fun settings hsettings => ?_, hfits.initialized_iff, hheeds.traffic,
    hheeds.sideBand⟩
  rw [hsettings]
  exact Config.rxThreshold_ofSettings settings

/-- A second engine on an enabled controller brings it up again, with a threshold of its own. -/
theorem second_engine_starts_over :
    let settings : List Config.Setting := [.threshold 3, .timeout 2 1]
    let controller := (Sim.Controller.ofLatency 0 0).attach 0x48 1
    let rig : Rig (Engine Sim.Controller Unit) Unit Unit :=
      ⟨⟨.ofParts .standard controller (), ()⟩, {}, ()⟩
    let commands : List (EngineCommand × Nat) := [(.bus .bringUp, 3),
      (.renew (.ofSettings settings), 0), (.bus (.setOutputs 5), 1), (.bus .bringUp, 3),
      (.bus (.serve (.write 0x48 [7])), 40)]
    (∀ command ∈ commands, command.1.isDirect = false)
      ∧ ((playedCommands rig commands).getLast?.map fun step => step.2.events.map isTraffic)
        = some [false, false, false, true, true, false, false]
      ∧ bringUpWrites 3
        <:+: (careerAfter ⟨.standard, []⟩ (playedCommands rig commands).dropLast).shown := by
  intro settings controller rig commands
  have hdirect : ∀ command ∈ commands, command.1.isDirect = false := by decide
  have hnew : rig.frontEnd.hardware = .ofParts .standard controller () := rfl
  have hlast : ((playedCommands rig commands).getLast?.map fun step => step.2.events.map isTraffic)
      = some [false, false, false, true, true, false, false] := by cbv
  obtain ⟨step, hstep, -⟩ := Option.map_eq_some_iff.mp hlast
  obtain ⟨-, -, hready, -, -⟩ := traffic_after_bringUp hnew hdirect
    (playedCommands rig commands).dropLast step.1 step.2 []
    (List.dropLast_append_getLast? step hstep).symm
  have hdepth : (careerAfter ⟨.standard, []⟩
      (playedCommands rig commands).dropLast).config.rxThreshold = 3 := by cbv
  exact ⟨hdirect, hlast, hdepth ▸ hready.mp (by cbv)⟩

end Session

end TwoWire
