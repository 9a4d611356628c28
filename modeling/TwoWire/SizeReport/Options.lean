/-!
# Options of the size reports

The command line is a command followed by options. `Item.readAll` reads a list of arguments as a
list of items, and stops at the leftmost one that does not fit; the options are the defaults with
the items applied in order, so of two values for one option the later one holds.
-/

namespace TwoWire.SizeReport

/-- How an analysis is printed. -/
inductive Format
  | table
  | json
  | csv
  deriving DecidableEq, Repr

/-- The format of a name. -/
def Format.ofName? (name : String) : Option Format :=
  if name = "table" then some table
  else if name = "json" then some json
  else if name = "csv" then some csv
  else none

/-- What the reports are made of, and where they go. -/
structure Options where
  release : Bool := false
  target : String := "thumbv7em-none-eabihf"
  format : Format := .table
  out : String := "target/bloat"
  deriving DecidableEq, Repr

/-- Why arguments are no list of options. -/
inductive OptionError
  | missingValue (option : String)
  | unknownFormat (name : String)
  | unknownOption (argument : String)
  deriving DecidableEq, Repr

/-- One option with its value. -/
inductive Item
  | release
  | target (triple : String)
  | format (format : Format)
  | out (directory : String)
  deriving DecidableEq, Repr

namespace Item

/-- Reads arguments as items. -/
def readAll : List String → Except OptionError (List Item)
  | [] => .ok []
  | "--release" :: rest => return release :: (← readAll rest)
  | "--target" :: value :: rest => return target value :: (← readAll rest)
  | "--out" :: value :: rest => return out value :: (← readAll rest)
  | "--format" :: name :: rest =>
    match Format.ofName? name with
    | none => .error (.unknownFormat name)
    | some f => return format f :: (← readAll rest)
  | argument :: _ =>
    if argument = "--target" ∨ argument = "--out" ∨ argument = "--format" then
      .error (.missingValue argument)
    else .error (.unknownOption argument)

/-- The options with an item applied. -/
def apply (options : Options) : Item → Options
  | release => { options with release := true }
  | target triple => { options with target := triple }
  | format f => { options with format := f }
  | out directory => { options with out := directory }

end Item

/-- The options that arguments ask for. -/
def Options.parse (arguments : List String) : Except OptionError Options :=
  return (← Item.readAll arguments).foldl Item.apply {}

end TwoWire.SizeReport
