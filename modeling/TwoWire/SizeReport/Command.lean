import TwoWire.SizeReport.Options
import TwoWire.SizeReport.Tree
import TwoWire.Utf8

/-!
# The size report command

`bloat` runs cargo once and prints what it found; `bloat-report` runs it once for each report and
writes what it found to a file. The first failure ends the command, and what was printed and
written before stays. A run of cargo is answered from a list-like script: the n-th run gets the
n-th answer.
-/

namespace TwoWire.SizeReport

/-- Program whose size is analysed. -/
def demoProgram : String := "audio-io-demo"

/-- What cargo gave back. -/
structure CargoOutput where
  exit : Nat
  stdout : List UInt8
  stderr : List UInt8
  deriving DecidableEq, Repr

/-- How the runs of cargo turn out, by their number from zero. -/
abbrev Cargo : Type := Nat → Except FileError CargoOutput

/-- Cargo is not installed. -/
def Cargo.absent : Cargo := fun _ => .error .notFound

/-- A report that is written to a file of its own. -/
inductive Report
  | functions
  | crates
  deriving DecidableEq, Repr

namespace Report

def name : Report → String
  | functions => "functions"
  | crates => "crates"

/-- What cargo is told to report. -/
def flags : Report → List String
  | functions => ["-n", "50"]
  | crates => ["--crates"]

/-- The file of a report, as it is named in messages. -/
def file (report : Report) (out : String) : String := out ++ "/bloat_" ++ report.name ++ ".txt"

end Report

/-- Why a command failed. -/
inductive Failure
  | options (error : OptionError)
  | unknownCommand (name : String)
  | notStarted (cause : FileError)
  | analysisFailed (stderr : List UInt8)
  | directoryNotMade (out : String) (cause : FileError)
  | reportNotStarted (report : Report) (cause : FileError)
  | reportFailed (report : Report) (stderr : List UInt8)
  | reportNotWritten (file : String) (cause : FileError)
  deriving DecidableEq, Repr

/-! ## Texts -/

/-- How the command line is used. -/
def usage : String := String.intercalate "\n" [
  "usage: cargo xtask <command> [options]",
  "",
  "commands:",
  "  bloat          size breakdown of the demo firmware",
  "  bloat-report   write size reports to a directory",
  "",
  "options:",
  "  --release          analyse the release profile",
  "  --target <triple>  target triple (default thumbv7em-none-eabihf)",
  "  --format <fmt>     bloat output: table, json or csv",
  "  --out <dir>        report directory (default target/bloat)"]

def OptionError.message : OptionError → String
  | missingValue option => option ++ " needs a value"
  | unknownFormat name => "unknown bloat format '" ++ name ++ "' (table, json, csv)"
  | unknownOption argument => "unknown option '" ++ argument ++ "'\n\n" ++ usage

namespace Failure

def message : Failure → String
  | options error => error.message
  | unknownCommand name => "unknown command '" ++ name ++ "'\n\n" ++ usage
  | notStarted _ =>
    "Failed to run cargo bloat - make sure it's installed with 'cargo install cargo-bloat'"
  | analysisFailed stderr => "cargo bloat failed: " ++ Utf8.text stderr
  | directoryNotMade out _ => "Failed to create output directory: " ++ out
  | reportNotStarted report _ => "Failed to generate " ++ report.name ++ " report"
  | reportFailed report stderr =>
    "cargo bloat (" ++ report.name ++ ") failed: " ++ Utf8.text stderr
  | reportNotWritten file _ => "Failed to write report to " ++ file

/-- What lies behind a failure, if anything does. -/
def cause : Failure → Option FileError
  | notStarted cause | directoryNotMade _ cause | reportNotStarted _ cause
  | reportNotWritten _ cause => some cause
  | _ => none

/-- The failure as it is printed. -/
def text (failure : Failure) : String :=
  "Error: " ++ failure.message ++ "\n" ++
    match failure.cause with
    | none => ""
    | some cause => "\nCaused by:\n    " ++ cause.message ++ "\n"

end Failure

/-! ## Running -/

/-- What a command has done so far. -/
structure Desk where
  tree : Tree
  /-- The arguments of the runs of cargo, in order. -/
  runs : List (List String)
  printed : String
  deriving DecidableEq, Repr

/-- A step of a command. -/
abbrev Job : Type → Type := ExceptT Failure (StateM Desk)

/-- Prints a line. -/
def Job.print (line : String) : Job Unit :=
  modify fun desk => { desk with printed := desk.printed ++ line ++ "\n" }

/-- Runs cargo; a run that could not be started fails as told and is not counted. -/
def Job.runCargo (cargo : Cargo) (arguments : List String) (notStarted : FileError → Failure) :
    Job CargoOutput := do
  match cargo (← get).runs.length with
  | .error cause => throw (notStarted cause)
  | .ok output =>
    modify fun desk => { desk with runs := desk.runs ++ [arguments] }
    return output

/-- Works on the files. What was done before a failure stays. -/
def Job.onFiles (work : Tree → Except FileError Unit × Tree) (failed : FileError → Failure) :
    Job Unit := do
  let (result, tree) := work (← get).tree
  modify fun desk => { desk with tree }
  match result with
  | .error cause => throw (failed cause)
  | .ok () => return

/-- The arguments that every run of cargo starts with. -/
def baseArguments (options : Options) : List String :=
  ["bloat"] ++ (if options.release then ["--release"] else [])
    ++ ["--target", options.target, "--bin", demoProgram, "--features", "demo"]

/-- What cargo is told for a format. -/
def Format.flags : Format → List String
  | table => []
  | json => ["--message-format=json"]
  | csv => ["--format=csv"]

/-- Analyses the size and prints the result. -/
def analyse (cargo : Cargo) (options : Options) : Job Unit := do
  Job.print ("Running binary size analysis for " ++ demoProgram ++ "...")
  let output ← Job.runCargo cargo (baseArguments options ++ options.format.flags) .notStarted
  if output.exit ≠ 0 then throw (.analysisFailed output.stderr)
  Job.print (Utf8.text output.stdout)

/-- Makes one report. -/
def writeReport (cargo : Cargo) (options : Options) (report : Report) : Job Unit := do
  let output ← Job.runCargo cargo (baseArguments options ++ report.flags)
    (.reportNotStarted report)
  if output.exit ≠ 0 then throw (.reportFailed report output.stderr)
  let file := report.file options.out
  Job.onFiles (fun tree => tree.attempt (tree.writeFile (.ofText file) output.stdout))
    (.reportNotWritten file)
  Job.print ("Generated " ++ file)

/-- Makes all reports. -/
def writeReports (cargo : Cargo) (options : Options) : Job Unit := do
  Job.onFiles (·.makeDirectories (.ofText options.out)) (.directoryNotMade options.out)
  writeReport cargo options .functions
  writeReport cargo options .crates

/-- Carries out a command line. The options are read before the command is looked at. -/
def job (cargo : Cargo) : List String → Job Unit
  | [] => Job.print usage
  | command :: arguments => do
    match Options.parse arguments with
    | .error error => throw (.options error)
    | .ok options =>
      if command = "bloat" then analyse cargo options
      else if command = "bloat-report" then writeReports cargo options
      else throw (.unknownCommand command)

/-- What a command line did. -/
structure Outcome where
  exit : Nat
  stdout : String
  stderr : String
  runs : List (List String)
  tree : Tree
  deriving DecidableEq, Repr

/-- Runs a command line over a working directory. -/
def run (cargo : Cargo) (tree : Tree) (arguments : List String) : Outcome :=
  let (result, desk) := (job cargo arguments).run ⟨tree, [], ""⟩
  match result with
  | .ok () => ⟨0, desk.printed, "", desk.runs, desk.tree⟩
  | .error failure => ⟨1, desk.printed, failure.text, desk.runs, desk.tree⟩

end TwoWire.SizeReport
