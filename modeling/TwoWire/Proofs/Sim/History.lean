import TwoWire.Proofs.Sim.Contract
import TwoWire.Sim.Session

/-!
# Histories of the simulated controller

A session over a simulated controller, seen from the controller, is one sequence of steps: commands
that may change the scene, and the events of their runs. `Step.next` is what a step makes of the
controller, and `Step.Fits` says that the controller gives what the step shows. The history of every
session fits the controller all along (`session_follows`), up to the access that it faults on if it
does. A history can be cut anywhere (`follows_append`), so what its steps preserve holds at every
moment of a session.
-/

namespace TwoWire

open RegisterBlock (Replays)

namespace Sim

open Log (Recorder)

/-! ## Steps -/

/-- A command begins, or an event of its run shows. -/
inductive Step
  | given (command : Command)
  | shown (event : Event)

/-- What a command does to the scene. -/
def Command.alter : Command → Controller → Controller
  | attach addr width => (·.attach addr width)
  | setRegisters addr register bytes => (·.setRegisters addr register bytes)
  | latch addr armed => (·.addLatch addr armed)
  | preload bytes => (·.preload bytes)
  | setStuck stuck => (·.setStuck stuck)
  | clear => (·.clear)
  | bench _ | getRegisters .. | accesses | transfers | txWords | scene => id

namespace Step

/-- The controller gives what the step shows. -/
def Fits (c : Controller) : Step → Prop
  | .shown (.read width offset value) => ∃ next, c.read width offset = .ok (value, next)
  | .shown (.write width offset value) => ∃ next, c.write width offset value = .ok next
  | .shown _ | .given _ => True

/-- The controller after the step. -/
def next (c : Controller) : Step → Controller
  | .given command => command.alter c
  | .shown (.read width offset _) =>
    match c.read width offset with
    | .ok (_, next) => next
    | .error _ => c
  | .shown (.write width offset value) =>
    match c.write width offset value with
    | .ok next => next
    | .error _ => c
  | .shown _ => c

variable {c next : Controller} {width : Width} {offset : Nat} {value : width.Value}

theorem next_read (h : c.read width offset = .ok (value, next)) :
    Step.next c (.shown (.read width offset value)) = next := by
  simp only [Step.next, h]

theorem next_write (h : c.write width offset value = .ok next) :
    Step.next c (.shown (.write width offset value)) = next := by
  simp only [Step.next, h]

end Step

/-- The controller after some steps. -/
def after (c : Controller) (steps : List Step) : Controller := steps.foldl Step.next c

/-- The controller gives all that the steps show. -/
def Follows : Controller → List Step → Prop
  | _, [] => True
  | c, step :: rest => step.Fits c ∧ Follows (step.next c) rest

variable {c last : Controller}

theorem after_append (c : Controller) (a b : List Step) : after c (a ++ b) = after (after c a) b :=
  List.foldl_append

theorem follows_append {a b : List Step} :
    Follows c (a ++ b) ↔ Follows c a ∧ Follows (after c a) b := by
  induction a generalizing c with
  | nil => exact ⟨fun h => ⟨trivial, h⟩, fun h => h.2⟩
  | cons step rest ih =>
    show _ ∧ Follows (step.next c) (rest ++ b) ↔ (_ ∧ Follows (step.next c) rest) ∧ _
    rw [ih, and_assoc]
    rfl

/-- The accesses of a trace that the controller answers are a history of it. -/
theorem follows_of_replays {events : List Event} (h : Replays c events last) :
    Follows c (events.map .shown) ∧ after c (events.map .shown) = last := by
  induction events generalizing c with
  | nil => exact ⟨trivial, h.symm⟩
  | cons event rest ih =>
    cases event with
    | read width offset value =>
      obtain ⟨next, hread, hrest⟩ := h
      obtain ⟨hfollows, hafter⟩ := ih hrest
      rw [← Step.next_read hread] at hfollows hafter
      exact ⟨⟨⟨next, hread⟩, hfollows⟩, hafter⟩
    | write width offset value =>
      obtain ⟨next, hwrite, hrest⟩ := h
      obtain ⟨hfollows, hafter⟩ := ih hrest
      rw [← Step.next_write hwrite] at hfollows hafter
      exact ⟨⟨⟨next, hwrite⟩, hfollows⟩, hafter⟩
    | sleep | log | call =>
      obtain ⟨hfollows, hafter⟩ := ih h
      exact ⟨⟨trivial, hfollows⟩, hafter⟩

/-! ## Sessions -/

/-- A bench over a simulated controller. -/
abbrev SimBench : Type := Bench (Engine Controller Recorder)

/-- The simulated controller of a bench. -/
def controllerOf (bench : SimBench) : Controller := bench.frontEnd.hardware.registers

/-- The bench after the last run. -/
def lastBench (bench : SimBench) (runs : List (Exec SimBench Answer)) : SimBench :=
  runs.foldl (fun _ run => run.state) bench

/-- The steps of a session: each command, followed by the events of its run. -/
def history (commands : List (Command × Nat)) (runs : List (Exec SimBench Answer)) : List Step :=
  (commands.zip runs).flatMap fun (command, run) => .given command.1 :: run.events.map .shown

theorem history_cons (command : Command) (allowance : Nat) (rest : List (Command × Nat))
    (run : Exec SimBench Answer) (runs : List (Exec SimBench Answer)) :
    history ((command, allowance) :: rest) (run :: runs)
      = (.given command :: run.events.map .shown) ++ history rest runs :=
  rfl

theorem history_nil_right (commands : List (Command × Nat)) : history commands [] = [] := by
  simp [history]

/-- A history shows no command that the session was not given. -/
theorem exists_of_given_mem_history {command : Command} {commands : List (Command × Nat)}
    {runs : List (Exec SimBench Answer)} (h : .given command ∈ history commands runs) :
    ∃ played ∈ commands, played.1 = command := by
  obtain ⟨⟨played, run⟩, hmem, hstep⟩ := List.mem_flatMap.mp h
  rcases List.mem_cons.mp hstep with heq | hshown
  · exact ⟨played, (List.of_mem_zip hmem).1, (Step.given.inj heq).symm⟩
  · obtain ⟨event, -, heq⟩ := List.mem_map.mp hshown
    cases heq

theorem engineCommand_replays (command : EngineCommand) (bench : SimBench) (n : Nat) :
    Replays (controllerOf bench) (command.perform bench n).events
      (controllerOf (command.perform bench n).state) := by
  let rel (engine : Engine Controller Recorder) (events : List Event)
    (engine' : Engine Controller Recorder) : Prop :=
    Replays engine.registers events engine'.registers
  have hchained : Proc.Chained rel :=
    ⟨fun engine => RegisterBlock.chained_replays.refl engine.registers,
      RegisterBlock.chained_replays.trans⟩
  have hmaster : Master.Upholds (Engine Controller Recorder) rel fun _ => True :=
    (Engine.master_upholds_regularly Controller.obliging fun _ _ => trivial).mono hchained
      fun _ _ _ h => h.1
  have hstatus : Proc.Upholds rel (fun _ => True)
      (Engine.status : Proc (Engine Controller Recorder) Status) :=
    ⟨fun engine n => (Engine.always_status_regularly engine n).1, fun _ _ _ _ => trivial⟩
  have hperform : Proc.Upholds (Rig.OnHardware rel) (fun _ => True)
      (command.perform : Proc (Bench (Engine Controller Recorder)) _) := by
    refine EngineCommand.upholds_perform (fun _ _ => trivial) (fun _ _ => trivial) hmaster hstatus
      (fun _ engine => hchained.refl engine) command ?_ ?_
    · intro width offset _
      exact ⟨Engine.always_onRegisters (RegisterBlock.always_load width offset),
        fun _ _ _ _ => trivial⟩
    · intro width offset value _
      exact ⟨Engine.always_onRegisters (RegisterBlock.always_store width offset value),
        fun _ _ _ _ => trivial⟩
  exact hperform.always bench n

/-- The events of a command replay on the controller of the scene that the command has set. -/
theorem Command.perform_replays (command : Command) (bench : SimBench) (n : Nat) :
    Replays (command.alter (controllerOf bench)) (command.perform bench n).events
      (controllerOf (command.perform bench n).state) := by
  cases command with
  | bench command =>
    have hbench : Replays (controllerOf bench) (command.perform bench n).events
        (controllerOf (command.perform bench n).state) := by
      cases command with
      | engine command => exact engineCommand_replays command bench n
      | renewCodec | heard => rfl
    have hmap : perform (.bench command) = Answer.bench <$> command.perform :=
      (map_eq_pure_bind _ _).symm
    rw [hmap]
    exact hbench
  | attach | setRegisters | getRegisters | latch | preload | setStuck | clear | accesses | transfers
  | txWords | scene => rfl

/-- **The history of a session fits its controller all along, and ends with the one it leaves.** -/
theorem session_follows (bench : SimBench) (commands : List (Command × Nat)) :
    let runs := play Command.perform bench commands
    Follows (controllerOf bench) (history commands runs)
      ∧ after (controllerOf bench) (history commands runs)
        = controllerOf (lastBench bench runs) := by
  intro runs
  induction commands generalizing bench with
  | nil => exact ⟨trivial, rfl⟩
  | cons command rest ih =>
    obtain ⟨command, allowance⟩ := command
    obtain ⟨hrun, hstate⟩ := follows_of_replays (command.perform_replays bench allowance)
    let steps : List Step :=
      .given command :: (command.perform bench allowance).events.map .shown
    have hfirst : Follows (controllerOf bench) steps := ⟨trivial, hrun⟩
    have hafter : after (controllerOf bench) steps
        = controllerOf (command.perform bench allowance).state := hstate
    simp only [runs]
    cases hout : (command.perform bench allowance).outcome with
    | error halt =>
      -- The access it halted on shows no event, so the history ends before that.
      rw [play_cons_of_error hout, history_cons, history_nil_right, List.append_nil]
      exact ⟨hfirst, hafter⟩
    | ok answer =>
      obtain ⟨hrest, hlast⟩ := ih (command.perform bench allowance).state
      rw [play_cons_of_ok hout, history_cons, follows_append, after_append, hafter]
      exact ⟨⟨hfirst, hrest⟩, hlast⟩

end Sim

end TwoWire
