import TwoWire.Proofs.SizeReport.Files

/-!
# Runs of cargo

A command makes calls of cargo one after another, and stops at the first that fails (`Halts`). Each
report is one such call, and its file is written if the call has ended well (`Files`). One report
does so (`run_writeReport_of_some`, `run_writeReport_of_none`), and then a row of them
(`halts_forM_writeReport`), as reports do not lie in each other's way.

From outside, cargo is started for commands that are known and have options that fit, and for no
others (`commands_stop_at_first_failure`).
-/

namespace TwoWire.SizeReport

/-! ## Calls -/

namespace Cargo

/-- What a run prints, if it could be started and ended well. -/
def stdout? (cargo : Cargo) (n : Nat) : Option (List UInt8) :=
  match cargo n with
  | .ok output => if output.exit = 0 then some output.stdout else none
  | .error _ => none

/-- The run can be started. -/
def starts (cargo : Cargo) (n : Nat) : Bool := (cargo n).isOk

theorem starts_of_isSome {cargo : Cargo} {n : Nat} (h : (cargo.stdout? n).isSome) :
    cargo.starts n = true := by
  unfold stdout? at h
  split at h
  · next hanswer =>
    rw [starts, hanswer]
    rfl
  · cases h

end Cargo

/-- A run of cargo that a command makes, and how the command fails when the run does. -/
structure CargoCall where
  arguments : List String
  notStarted : FileError → Failure
  failed : List UInt8 → Failure

/-- How a command fails when its call was answered by a run. -/
def CargoCall.failure (call : CargoCall) (cargo : Cargo) (n : Nat) : Failure :=
  match cargo n with
  | .ok output => call.failed output.stderr
  | .error cause => call.notStarted cause

namespace Options

/-- What cargo is told: what all runs have in common, and then flags of its own. -/
def cargoArguments (options : Options) (flags : List String) : List String :=
  ["bloat"] ++ (if options.release then ["--release"] else [])
    ++ ["--target", options.target, "--bin", "audio-io-demo", "--features", "demo"] ++ flags

/-- The call that analyses the size. -/
def analysis (options : Options) : CargoCall :=
  ⟨options.cargoArguments options.format.flags, .notStarted, .analysisFailed⟩

/-- The call that a report is made of. -/
def reportCall (options : Options) (report : Report) : CargoCall :=
  ⟨options.cargoArguments report.flags, .reportNotStarted report, .reportFailed report⟩

end Options

/-! ## Jobs -/

namespace Job

variable {α β : Type} {cargo : Cargo} {call : CargoCall} {desk after : Desk}

theorem run_bind_of_ok {j : Job α} {f : α → Job β} {a : α} (h : j.run desk = (.ok a, after)) :
    (j >>= f).run desk = (f a).run after := by
  rw [ExceptT.run_bind]
  simp only [bind, StateT.bind, h]

theorem run_bind_of_error {j : Job α} {f : α → Job β} {failure : Failure}
    (h : j.run desk = (.error failure, after)) :
    (j >>= f).run desk = (.error failure, after) := by
  rw [ExceptT.run_bind]
  simp only [bind, StateT.bind, h]
  rfl

theorem run_print (line : String) (desk : Desk) : (print line).run desk
    = (.ok (), { desk with printed := desk.printed ++ line ++ "\n" }) := rfl

theorem run_runCargo_of_ok {arguments : List String} {notStarted : FileError → Failure}
    {output : CargoOutput} (h : cargo desk.runs.length = .ok output) :
    (runCargo cargo arguments notStarted).run desk
      = (.ok output, { desk with runs := desk.runs ++ [arguments] }) := by
  have hget : (get : Job Desk).run desk = (.ok desk, desk) := rfl
  rw [runCargo, run_bind_of_ok hget, h]
  rfl

theorem run_runCargo_of_error {arguments : List String} {notStarted : FileError → Failure}
    {cause : FileError} (h : cargo desk.runs.length = .error cause) :
    (runCargo cargo arguments notStarted).run desk = (.error (notStarted cause), desk) := by
  have hget : (get : Job Desk).run desk = (.ok desk, desk) := rfl
  rw [runCargo, run_bind_of_ok hget, h]
  rfl

theorem run_onFiles {work : Tree → Except FileError Unit × Tree} {failed : FileError → Failure}
    {tree : Tree} (h : work desk.tree = (.ok (), tree)) :
    (onFiles work failed).run desk = (.ok (), { desk with tree }) := by
  have hget : (get : Job Desk).run desk = (.ok desk, desk) := rfl
  rw [onFiles, run_bind_of_ok hget, h]
  rfl

/-- Makes a call, and goes on with what it printed. -/
def callCargo (cargo : Cargo) (call : CargoCall) (next : List UInt8 → Job Unit) : Job Unit := do
  let output ← runCargo cargo call.arguments call.notStarted
  if output.exit ≠ 0 then throw (call.failed output.stderr)
  next output.stdout

theorem run_callCargo_of_some {next : List UInt8 → Job Unit} {content : List UInt8}
    (h : cargo.stdout? desk.runs.length = some content) :
    (callCargo cargo call next).run desk
      = (next content).run { desk with runs := desk.runs ++ [call.arguments] } := by
  unfold Cargo.stdout? at h
  split at h
  · next output hanswer =>
    split at h
    · next hexit =>
      obtain rfl := Option.some.inj h
      rw [callCargo, run_bind_of_ok (run_runCargo_of_ok hanswer), if_neg (not_not_intro hexit)]
    · cases h
  · cases h

/-- A call that fails ends the command; it counts as a run if it was started. -/
theorem run_callCargo_of_none {next : List UInt8 → Job Unit}
    (h : cargo.stdout? desk.runs.length = none) :
    (callCargo cargo call next).run desk
      = (.error (call.failure cargo desk.runs.length),
        { desk with
          runs := desk.runs
            ++ if cargo.starts desk.runs.length then [call.arguments] else [] }) := by
  unfold Cargo.stdout? at h
  split at h
  · next output hanswer =>
    split at h
    · cases h
    · next hexit =>
      rw [callCargo, run_bind_of_ok (run_runCargo_of_ok hanswer), if_pos hexit,
        CargoCall.failure, Cargo.starts, hanswer]
      rfl
  · next cause hanswer =>
    rw [callCargo, run_bind_of_error (run_runCargo_of_error hanswer), CargoCall.failure,
      Cargo.starts, hanswer]
    show _ = (_, { desk with runs := desk.runs ++ [] })
    rw [List.append_nil]

end Job

theorem analyse_eq (cargo : Cargo) (options : Options) : analyse cargo options = (do
    Job.print ("Running binary size analysis for " ++ demoProgram ++ "...")
    Job.callCargo cargo options.analysis fun stdout => Job.print (Utf8.text stdout)) := rfl

theorem writeReport_eq (cargo : Cargo) (options : Options) (report : Report) :
    writeReport cargo options report
      = Job.callCargo cargo (options.reportCall report) fun stdout => (do
        Job.onFiles
          (fun tree => tree.attempt (tree.writeFile (.ofText (report.file options.out)) stdout))
          (.reportNotWritten (report.file options.out))
        Job.print ("Generated " ++ report.file options.out)) := rfl

theorem writeReports_eq (cargo : Cargo) (options : Options) : writeReports cargo options = (do
    Job.onFiles (·.makeDirectories (.ofText options.out)) (.directoryNotMade options.out)
    [Report.functions, .crates].forM (writeReport cargo options)) := by
  simp only [writeReports, List.forM_eq_forM, List.forM_cons, List.forM_nil, bind_pure_unit]

/-! ## Stopping at the first failure -/

/--
Calls are answered one after another, the first of them by run `n`, up to the first that fails. That
one ends the command, and counts as a run if it was started.
-/
structure Halts (cargo : Cargo) (n : Nat) (calls : List CargoCall) (done : Nat)
    (result : Except Failure Unit) (runs : List (List String)) : Prop where
  le : done ≤ calls.length
  succeeded : ∀ i < done, (cargo.stdout? (n + i)).isSome
  failed : done < calls.length → cargo.stdout? (n + done) = none
  runs_eq : runs = (calls.take (if cargo.starts (n + done) then done + 1 else done)).map
    (·.arguments)
  result_eq : result = match calls[done]? with
    | none => .ok ()
    | some call => .error (call.failure cargo (n + done))

namespace Halts

variable {cargo : Cargo} {n done : Nat} {call : CargoCall} {calls : List CargoCall}
  {result : Except Failure Unit} {runs : List (List String)}

theorem nil : Halts cargo n [] 0 (.ok ()) [] where
  le := Nat.le_refl 0
  succeeded _ h := (Nat.not_lt_zero _ h).elim
  failed h := (Nat.not_lt_zero _ h).elim
  runs_eq := by rw [List.take_nil, List.map_nil]
  result_eq := rfl

/-- The first call fails. -/
theorem stop (h : cargo.stdout? n = none) :
    Halts cargo n (call :: calls) 0 (.error (call.failure cargo n))
      (if cargo.starts n then [call.arguments] else []) where
  le := Nat.zero_le _
  succeeded _ h := (Nat.not_lt_zero _ h).elim
  failed _ := h
  runs_eq := by
    rw [Nat.add_zero]
    split <;> rfl
  result_eq := rfl

/-- The first call succeeds, and the others go on. -/
theorem cons (h : (cargo.stdout? n).isSome) (hrest : Halts cargo (n + 1) calls done result runs) :
    Halts cargo n (call :: calls) (done + 1) result (call.arguments :: runs) := by
  have hnext : ∀ i, n + 1 + i = n + (i + 1) := by omega
  constructor
  case le => exact Nat.succ_le_succ hrest.le
  case succeeded =>
    intro i hi
    cases i with
    | zero => exact h
    | succ i =>
      rw [← hnext]
      exact hrest.succeeded i (Nat.lt_of_succ_lt_succ hi)
  case failed =>
    intro hdone
    rw [← hnext]
    exact hrest.failed (Nat.lt_of_succ_lt_succ hdone)
  case runs_eq =>
    rw [hrest.runs_eq, hnext]
    split <;> rfl
  case result_eq =>
    rw [hrest.result_eq, hnext]
    rfl

theorem runs_ne_nil_iff (h : Halts cargo n (call :: calls) done result runs) :
    runs ≠ [] ↔ cargo.starts n = true := by
  cases done with
  | zero =>
    rw [h.runs_eq, Nat.add_zero]
    split
    · next hstarts => exact iff_of_true (List.cons_ne_nil _ _) hstarts
    · next hstarts => exact iff_of_false (fun hne => hne rfl) hstarts
  | succ done =>
    refine iff_of_true ?_ (Cargo.starts_of_isSome (h.succeeded 0 (Nat.succ_pos done)))
    rw [h.runs_eq]
    split <;> exact List.cons_ne_nil _ _

end Halts

/-! ## Reports -/

/-- The first reports have been written, and all else is as it was. -/
structure Files (cargo : Cargo) (n : Nat) (dir : Place) (reports : List Report) (done : Nat)
    (before after : Tree) : Prop where
  written : ∀ i < done, ∀ report, reports[i]? = some report →
    after.node? (dir.child report.fileName) = (cargo.stdout? (n + i)).map .file
  others : ∀ place, (∀ report ∈ reports.take done, place ≠ dir.child report.fileName) →
    after.node? place = before.node? place

namespace Files

variable {cargo : Cargo} {n done : Nat} {dir : Place} {report : Report} {reports : List Report}
  {before after : Tree} {content : List UInt8}

theorem refl (tree : Tree) : Files cargo n dir reports 0 tree tree where
  written _ h := (Nat.not_lt_zero _ h).elim
  others _ _ := rfl

theorem cons (hreport : report ∉ reports) (h : cargo.stdout? n = some content)
    (hrest : Files cargo (n + 1) dir reports done
      (before.put (dir.child report.fileName) (.file content)) after) :
    Files cargo n dir (report :: reports) (done + 1) before after where
  written i hi other hother := by
    cases i with
    | zero =>
      obtain rfl : report = other := Option.some.inj hother
      -- the reports behind it are written elsewhere
      have hkept : ∀ other ∈ reports.take done,
          dir.child report.fileName ≠ dir.child other.fileName := by
        intro other hmem heq
        obtain rfl := Report.fileName_inj.mp (Place.child_inj.mp heq)
        exact hreport (List.mem_of_mem_take hmem)
      rw [hrest.others _ hkept, Tree.node?_put_same, Nat.add_zero, h]
      rfl
    | succ i =>
      rw [hrest.written i (Nat.lt_of_succ_lt_succ hi) other hother, Nat.add_assoc, Nat.add_comm 1]
  others place hplace := by
    rw [hrest.others place fun other hmem => hplace other (List.mem_cons_of_mem _ hmem)]
    exact Tree.node?_put_of_ne (hplace report List.mem_cons_self) _

/-- A report whose turn does not come is left as it was. -/
theorem kept (h : Files cargo n dir reports done before after) (hnodup : reports.Nodup) {i : Nat}
    (hi : done ≤ i) (hreport : reports[i]? = some report) :
    after.node? (dir.child report.fileName) = before.node? (dir.child report.fileName) := by
  refine h.others _ fun other hmem heq => ?_
  obtain rfl := Report.fileName_inj.mp (Place.child_inj.mp heq)
  obtain ⟨j, hj⟩ := List.mem_iff_getElem?.mp hmem
  rw [List.getElem?_take] at hj
  split at hj
  · next hjdone =>
    obtain ⟨hlen, -⟩ := List.getElem?_eq_some_iff.mp hreport
    have heq : i = j := (List.getElem?_inj hlen hnodup).mp (hreport.trans hj.symm)
    omega
  · cases hj

end Files

section

variable {cargo : Cargo} {options : Options} {report : Report} {desk : Desk} {dir : Place}

/-- A report whose call succeeds is written. -/
theorem run_writeReport_of_some (hdir : desk.tree.Holds options.out dir) {content : List UInt8}
    (h : cargo.stdout? desk.runs.length = some content) :
    ∃ after, (writeReport cargo options report).run desk = (.ok (), after)
      ∧ after.tree = desk.tree.put (dir.child report.fileName) (.file content)
      ∧ after.runs = desk.runs ++ [(options.reportCall report).arguments] := by
  rw [writeReport_eq, Job.run_callCargo_of_some h]
  refine ⟨_, Job.run_bind_of_ok (Job.run_onFiles ?_), rfl, rfl⟩
  show desk.tree.attempt (desk.tree.writeFile (.ofText (report.file options.out)) content) = _
  rw [hdir.writeFile]
  rfl

/-- A report whose call fails is not written, and ends the command. -/
theorem run_writeReport_of_none (h : cargo.stdout? desk.runs.length = none) :
    (writeReport cargo options report).run desk
      = (.error ((options.reportCall report).failure cargo desk.runs.length),
        { desk with
          runs := desk.runs ++ if cargo.starts desk.runs.length then
            [(options.reportCall report).arguments] else [] }) := by
  rw [writeReport_eq, Job.run_callCargo_of_none h]

/-- Reports are made up to the first whose call fails, and those are written. -/
theorem halts_forM_writeReport (reports : List Report) (hnodup : reports.Nodup) (desk : Desk)
    (hdir : desk.tree.Holds options.out dir) : ∃ done result runs after,
      (reports.forM (writeReport cargo options)).run desk = (result, after)
        ∧ after.runs = desk.runs ++ runs
        ∧ Halts cargo desk.runs.length (reports.map options.reportCall) done result runs
        ∧ Files cargo desk.runs.length dir reports done desk.tree after.tree
        ∧ after.tree.Holds options.out dir := by
  induction reports generalizing desk with
  | nil => exact ⟨0, .ok (), [], desk, rfl, (List.append_nil _).symm, .nil, .refl _, hdir⟩
  | cons report rest ih =>
    obtain ⟨hreport, hrest⟩ := List.nodup_cons.mp hnodup
    rw [List.forM_eq_forM, List.forM_cons]
    cases houtput : cargo.stdout? desk.runs.length with
    | none =>
      exact ⟨0, _, _, _, Job.run_bind_of_error (run_writeReport_of_none houtput), rfl,
        .stop houtput, .refl _, hdir⟩
    | some content =>
      obtain ⟨mid, hstep, htree, hmid⟩ := run_writeReport_of_some hdir houtput
      obtain ⟨done, result, runs, after, hmade, hruns, hhalts, hfiles, hafter⟩ :=
        ih hrest mid (htree ▸ hdir.put report content)
      -- one more run is on the desk, so the others are answered from the next one on
      rw [hmid, List.length_append, List.length_singleton] at hhalts hfiles
      rw [htree] at hfiles
      refine ⟨done + 1, result, _, after, (Job.run_bind_of_ok hstep).trans hmade, ?_,
        .cons (by rw [houtput]; rfl) hhalts, .cons hreport houtput hfiles, hafter⟩
      rw [hruns, hmid, List.append_assoc]
      rfl

/-- The analysis is one call, and touches no file. -/
theorem halts_analyse (cargo : Cargo) (options : Options) (desk : Desk) :
    ∃ done result runs after, (analyse cargo options).run desk = (result, after)
      ∧ after.runs = desk.runs ++ runs ∧ after.tree = desk.tree
      ∧ Halts cargo desk.runs.length [options.analysis] done result runs := by
  rw [analyse_eq, Job.run_bind_of_ok (Job.run_print _ desk)]
  cases houtput : cargo.stdout? desk.runs.length with
  | none => exact ⟨0, _, _, _, Job.run_callCargo_of_none houtput, rfl, rfl, .stop houtput⟩
  | some content =>
    exact ⟨1, .ok (), _, _, Job.run_callCargo_of_some houtput, rfl, rfl,
      .cons (by rw [houtput]; rfl) .nil⟩

end

/-! ## Commands -/

/-- A known command with options that fit. -/
def WellFormed (arguments : List String) : Prop := ∃ command rest options,
  arguments = command :: rest ∧ (command = "bloat" ∨ command = "bloat-report")
    ∧ Options.parse rest = .ok options

/-- How a command ended, as the system is told. -/
def Outcome.Ends (outcome : Outcome) : Except Failure Unit → Prop
  | .ok () => outcome.exit = 0 ∧ outcome.stderr = ""
  | .error failure => outcome.exit = 1 ∧ outcome.stderr = failure.text

/--
The files of the reports whose calls succeeded hold what those printed, byte for byte. The others,
and all else in the tree, are as they were when the directory had been made.
-/
structure Published (cargo : Cargo) (out : String) (done : Nat) (made tree : Tree) : Prop where
  reports : ∀ i report, [Report.functions, .crates][i]? = some report →
    tree.content? (.ofText (report.file out))
      = if i < done then cargo.stdout? i else made.content? (.ofText (report.file out))
  others : ∀ dir, made.walk (reportDirectory out).start (reportDirectory out).names = .ok dir →
    ∀ place, (∀ report : Report, place ≠ dir.child report.fileName) →
      tree.node? place = made.node? place

section

variable {cargo : Cargo} {t : Tree} {command : String} {arguments rest : List String}
  {options : Options}

theorem Files.published {out : String} {done : Nat} {dir : Place} {made tree : Tree}
    (h : Files cargo 0 dir [.functions, .crates] done made tree)
    (hsucceeded : ∀ i < done, (cargo.stdout? i).isSome) (hmade : made.Holds out dir)
    (htree : tree.Holds out dir) : Published cargo out done made tree where
  reports i report hreport := by
    split
    · next hi =>
      obtain ⟨content, hcontent⟩ := Option.isSome_iff_exists.mp (hsucceeded i hi)
      have hnode := h.written i hi report hreport
      rw [Nat.zero_add, hcontent] at hnode
      rw [hcontent]
      exact htree.content?_eq_some hnode
    · next hi =>
      exact hmade.content?_congr htree (h.kept (by decide) (Nat.le_of_not_lt hi) hreport)
  others place hplace other hother := by
    obtain rfl : dir = place := Except.ok.inj (hmade.leads.symm.trans hplace)
    exact h.others other fun report _ => hother report

theorem run_ends {result : Except Failure Unit} {after : Desk}
    (h : (job cargo arguments).run ⟨t, [], ""⟩ = (result, after)) :
    (run cargo t arguments).Ends result ∧ (run cargo t arguments).runs = after.runs
      ∧ (run cargo t arguments).tree = after.tree := by
  cases result with
  | ok =>
    rw [run, h]
    exact ⟨⟨rfl, rfl⟩, rfl, rfl⟩
  | error failure =>
    rw [run, h]
    exact ⟨⟨rfl, rfl⟩, rfl, rfl⟩

/-- Options that do not fit are told of before the command is looked at. -/
theorem run_of_misfit {error : OptionError} (h : Options.parse rest = .error error) :
    run cargo t (command :: rest) = ⟨1, "", (Failure.options error).text, [], t⟩ := by
  rw [run, job, h]
  rfl

theorem run_of_unknown (h : Options.parse rest = .ok options) (hbloat : command ≠ "bloat")
    (hreport : command ≠ "bloat-report") :
    run cargo t (command :: rest) = ⟨1, "", (Failure.unknownCommand command).text, [], t⟩ := by
  simp only [run, job, h, if_neg hbloat, if_neg hreport]
  rfl

theorem halts_bloat (h : Options.parse rest = .ok options) : ∃ done result,
    Halts cargo 0 [options.analysis] done result (run cargo t ("bloat" :: rest)).runs
      ∧ (run cargo t ("bloat" :: rest)).Ends result
      ∧ (run cargo t ("bloat" :: rest)).tree = t := by
  have hjob : job cargo ("bloat" :: rest) = analyse cargo options := by
    rw [job, h]
    rfl
  obtain ⟨done, result, runs, after, hrun, hruns, htree, hhalts⟩ :=
    halts_analyse cargo options ⟨t, [], ""⟩
  obtain ⟨hends, hsame, hkept⟩ := run_ends (hjob ▸ hrun)
  rw [hsame, hkept, hruns]
  exact ⟨done, result, hhalts, hends, htree⟩

theorem halts_report (h : Options.parse rest = .ok options) (hhosts : t.Hosts options.out) :
    ∃ done result,
      Halts cargo 0 [options.reportCall .functions, options.reportCall .crates] done result
          (run cargo t ("bloat-report" :: rest)).runs
        ∧ (run cargo t ("bloat-report" :: rest)).Ends result
        ∧ Published cargo options.out done (t.makeDirectories (.ofText options.out)).2
          (run cargo t ("bloat-report" :: rest)).tree := by
  obtain ⟨dir, hdir⟩ := hhosts.exists_holds
  obtain ⟨done, result, runs, after, hrun, hruns, hhalts, hfiles, hafter⟩ :=
    @halts_forM_writeReport cargo options dir [.functions, .crates] (by decide)
      ⟨(t.makeDirectories (.ofText options.out)).2, [], ""⟩ hdir
  have hmade : (Job.onFiles (·.makeDirectories (.ofText options.out))
      (.directoryNotMade options.out)).run ⟨t, [], ""⟩
        = (.ok (), ⟨(t.makeDirectories (.ofText options.out)).2, [], ""⟩) :=
    Job.run_onFiles (Prod.ext hhosts.creatable rfl)
  have hjob : (job cargo ("bloat-report" :: rest)).run ⟨t, [], ""⟩ = (result, after) := by
    rw [job, h]
    show (writeReports cargo options).run ⟨t, [], ""⟩ = _
    rw [writeReports_eq, Job.run_bind_of_ok hmade, hrun]
  obtain ⟨hends, hsame, hkept⟩ := run_ends hjob
  rw [hsame, hkept, hruns]
  refine ⟨done, result, hhalts, hends, hfiles.published (fun i hi => ?_) hdir hafter⟩
  have hsome := hhalts.succeeded i hi
  rwa [List.length_nil, Nat.zero_add] at hsome

theorem runs_of_not_wellFormed (h : ¬WellFormed arguments) :
    (run cargo t arguments).runs = [] := by
  cases arguments with
  | nil => rfl
  | cons command rest =>
    cases hparse : Options.parse rest with
    | error error => rw [run_of_misfit hparse]
    | ok options =>
      have hbloat : command ≠ "bloat" :=
        fun heq => h ⟨command, rest, options, rfl, .inl heq, hparse⟩
      have hreport : command ≠ "bloat-report" :=
        fun heq => h ⟨command, rest, options, rfl, .inr heq, hparse⟩
      rw [run_of_unknown hparse hbloat hreport]

theorem runs_ne_nil_iff (hhosts : ∀ rest options, arguments = "bloat-report" :: rest →
      Options.parse rest = .ok options → t.Hosts options.out) :
    (run cargo t arguments).runs ≠ [] ↔ WellFormed arguments ∧ cargo.starts 0 = true := by
  by_cases hwell : WellFormed arguments
  · rw [and_iff_right hwell]
    obtain ⟨command, rest, options, rfl, rfl | rfl, h⟩ := hwell
    · obtain ⟨_, _, hhalts, -⟩ := @halts_bloat cargo t rest options h
      exact hhalts.runs_ne_nil_iff
    · obtain ⟨_, _, hhalts, -⟩ := @halts_report cargo t rest options h (hhosts rest options rfl h)
      exact hhalts.runs_ne_nil_iff
  · exact iff_of_false (fun hruns => hruns (runs_of_not_wellFormed hwell)) fun h => hwell h.1

end

/--
**Cargo is run for well-formed commands, up to the first failure.**

Cargo can be started in any way, and each run of it can end in any way. It is run just when the
command is known and its options fit, as long as the first run can be started; the directory of the
reports has to be one that can be made and written to. Options that do not fit are told of before a
command that is unknown.

The analysis is one run, and the reports are two, the functions before the crates. The first run
that fails ends the command with its error, and no later one is started. The file of each report
holds what its run printed if that has ended well, and otherwise what it held before.
-/
theorem commands_stop_at_first_failure (cargo : Cargo) (t : Tree) (arguments : List String)
    (hhosts : ∀ rest options, arguments = "bloat-report" :: rest →
      Options.parse rest = .ok options → t.Hosts options.out) :
    ((run cargo t arguments).runs ≠ [] ↔ WellFormed arguments ∧ cargo.starts 0 = true)
    ∧ (arguments = [] → run cargo t arguments = ⟨0, usage ++ "\n", "", [], t⟩)
    ∧ (∀ command rest error, arguments = command :: rest → Options.parse rest = .error error →
      run cargo t arguments = ⟨1, "", (Failure.options error).text, [], t⟩)
    ∧ (∀ command rest options, arguments = command :: rest → Options.parse rest = .ok options →
      command ≠ "bloat" → command ≠ "bloat-report" →
      run cargo t arguments = ⟨1, "", (Failure.unknownCommand command).text, [], t⟩)
    ∧ (∀ rest options, arguments = "bloat" :: rest → Options.parse rest = .ok options →
      ∃ done result, Halts cargo 0 [options.analysis] done result (run cargo t arguments).runs
        ∧ (run cargo t arguments).Ends result ∧ (run cargo t arguments).tree = t)
    ∧ (∀ rest options, arguments = "bloat-report" :: rest → Options.parse rest = .ok options →
      ∃ done result,
        Halts cargo 0 [options.reportCall .functions, options.reportCall .crates] done result
            (run cargo t arguments).runs
          ∧ (run cargo t arguments).Ends result
          ∧ Published cargo options.out done (t.makeDirectories (.ofText options.out)).2
            (run cargo t arguments).tree) := by
  refine ⟨runs_ne_nil_iff hhosts, ?_, ?_, ?_, ?_, ?_⟩
  · rintro rfl
    rfl
  · rintro command rest error rfl h
    exact run_of_misfit h
  · rintro command rest options rfl h hbloat hreport
    exact run_of_unknown h hbloat hreport
  · rintro rest options rfl h
    exact halts_bloat h
  · rintro rest options rfl h
    exact halts_report h (hhosts rest options rfl h)

/-- The second run fails: the first report is kept, and an old file of the second one too. -/
theorem written_reports_are_kept :
    let cargo : Cargo := fun n =>
      .ok (if n = 0 then ⟨0, [0x31, 0x0A], []⟩ else ⟨101, [0x32], [0x21]⟩)
    let sizes := Place.working.child "sizes"
    let t := (Tree.empty.put sizes .directory).put (sizes.child "bloat_crates.txt") (.file [0x30])
    let outcome := run cargo t ["bloat-report", "--target", "armv7", "--out", "sizes", "--release"]
    let common := ["bloat", "--release", "--target", "armv7", "--bin", "audio-io-demo",
      "--features", "demo"]
    t.Hosts "sizes"
      ∧ outcome.exit = 1
      ∧ outcome.stderr = (Failure.reportFailed .crates [0x21]).text
      ∧ outcome.runs = [common ++ ["-n", "50"], common ++ ["--crates"]]
      ∧ outcome.tree.content? (.ofText "sizes/bloat_functions.txt") = some [0x31, 0x0A]
      ∧ outcome.tree.content? (.ofText "sizes/bloat_crates.txt") = some [0x30] := by
  intro cargo sizes t outcome common
  have hhosts : t.Hosts "sizes" := ⟨rfl, fun report => by cases report <;> rfl⟩
  have hparse : Options.parse ["--target", "armv7", "--out", "sizes", "--release"]
      = .ok ⟨true, "armv7", .table, "sizes"⟩ := rfl
  obtain ⟨-, -, -, -, -, hreport⟩ := commands_stop_at_first_failure cargo t
    ["bloat-report", "--target", "armv7", "--out", "sizes", "--release"]
    (by
      rintro rest options hrest h
      obtain rfl := (List.cons.inj hrest).2
      obtain rfl := Except.ok.inj (hparse.symm.trans h)
      exact hhosts)
  obtain ⟨done, result, hhalts, hends, hpublished⟩ := hreport _ _ rfl hparse
  obtain rfl : done = 1 := by
    match done, hhalts.le, hhalts.succeeded, hhalts.failed with
    | 0, _, _, hfailed => exact absurd (hfailed (by decide)) (by decide)
    | 1, _, _, _ => rfl
    | 2, _, hsucceeded, _ => exact absurd (hsucceeded 1 (by decide)) (by decide)
  have hresult := hhalts.result_eq
  subst hresult
  refine ⟨hhosts, hends.1, hends.2, hhalts.runs_eq, ?_, ?_⟩
  · exact hpublished.reports 0 .functions rfl
  · exact hpublished.reports 1 .crates rfl

end TwoWire.SizeReport
