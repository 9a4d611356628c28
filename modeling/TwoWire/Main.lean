import TwoWire.SizeReport.Command

/-!
# Command line

Runs the size report command in the working directory. This program starts no other, so cargo counts
as not installed; directories that the command made are made on disk.
-/

open TwoWire.SizeReport

/-- Runs the command line and answers its exit code. -/
def main (arguments : List String) : IO UInt32 := do
  let outcome := run Cargo.absent .empty arguments
  for (place, node) in outcome.tree.entries do
    if node = .directory then
      IO.FS.createDirAll place.pathText
  IO.print outcome.stdout
  IO.eprint outcome.stderr
  return UInt32.ofNat outcome.exit
