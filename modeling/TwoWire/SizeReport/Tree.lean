import TwoWire.Trail

/-!
# File trees

The files and directories that a command works on. A place in the tree is told by the names that
lead to it, from the working directory, from a directory above that one, or from the root. A path
leads from place to place, name by name.

A change of the tree either happens or fails and leaves the tree as it was. `Tree.makeDirectories`
is a series of such changes: it makes a directory together with those above it that are missing,
and those it has made stay when a later one fails.
-/

namespace TwoWire.SizeReport

/-- Why a file could not be reached or made, or a program not be started. -/
inductive FileError
  | notFound
  | alreadyExists
  | notDirectory
  | isDirectory
  deriving DecidableEq, Repr

/-- The text of a file error with its number. -/
def FileError.message : FileError → String
  | notFound => "No such file or directory (os error 2)"
  | alreadyExists => "File exists (os error 17)"
  | notDirectory => "Not a directory (os error 20)"
  | isDirectory => "Is a directory (os error 21)"

/-! ## Paths -/

/-- A path as written: the names between its slashes. -/
structure Path where
  absolute : Bool
  names : List String
  deriving DecidableEq, Repr

namespace Path

/-- The path of a text. Slashes that follow each other count as one. -/
def ofText (text : String) : Path :=
  ⟨"/".toList.isPrefixOf text.toList,
    ((text.toList.splitOn '/').map String.ofList).filter (· ≠ "")⟩

/-- The names that matter for what lies above: a dot only counts at the start. -/
def significant (p : Path) : List String :=
  match p.names with
  | [] => []
  | first :: rest =>
    (if p.absolute ∧ first = "." then [] else [first]) ++ rest.filter (· ≠ ".")

/-- The path above. -/
def parent (p : Path) : Path := { p with names := p.significant.dropLast }

end Path

/-! ## Places -/

/-- Where names start from. -/
inductive Base
  /-- So many levels above the working directory, which is itself at level zero. -/
  | above (levels : Nat)
  | root
  deriving DecidableEq, Repr

/-- A place: the names that lead to it, and where they start from. -/
structure Place where
  base : Base
  trail : Trail String
  deriving DecidableEq, Repr

namespace Place

/-- The names from the base down. -/
def names (place : Place) : List String := place.trail.toList

/-- The place where names start from. -/
def ofBase (base : Base) : Place := ⟨base, .empty⟩

/-- The working directory. -/
def working : Place := .ofBase (.above 0)

/-- The place of a name in a directory. -/
def child (place : Place) (name : String) : Place := { place with trail := place.trail.push name }

/-- The place one level up. Above the root is the root. -/
def up (place : Place) : Place :=
  if place.trail.size = 0 then
    match place.base with
    | .above levels => .ofBase (.above (levels + 1))
    | .root => place
  else { place with trail := place.trail.pop }

/-- The text of a path that leads to a place. -/
def pathText (place : Place) : String :=
  (match place.base with
    | .above levels => String.join (List.replicate levels "../")
    | .root => "/") ++ String.intercalate "/" place.names

end Place

/-- Where a path starts from. -/
def Path.start (p : Path) : Place := if p.absolute then .ofBase .root else .working

/-! ## Trees -/

/-- What a path leads to. -/
inductive Node
  | file (content : List UInt8)
  | directory
  deriving DecidableEq, Repr

/-- Files and directories, each with its place. The bases are directories without an entry. -/
structure Tree where
  entries : List (Place × Node)
  deriving DecidableEq, Repr

namespace Tree

/-- Nothing but the bases. -/
def empty : Tree := ⟨[]⟩

/-- What lies at a place that is not a base. -/
def node? (t : Tree) (place : Place) : Option Node :=
  (t.entries.find? (·.1 = place)).map Prod.snd

/-- Puts something at a place, instead of what was there. -/
def put (t : Tree) (place : Place) (node : Node) : Tree :=
  ⟨t.entries.filter (·.1 ≠ place) ++ [(place, node)]⟩

/-- What lies below the working directory, with the names that lead there. -/
def listing (t : Tree) : List (List String × Node) :=
  (t.entries.filter (·.1.base = .above 0)).map fun (place, node) => (place.names, node)

/-- Where one more name leads. -/
def step (t : Tree) (place : Place) (name : String) : Except FileError Place :=
  if name = "." then .ok place
  else if name = ".." then .ok place.up
  else
    match t.node? (place.child name) with
    | none => .error .notFound
    | some (.file _) => .error .notDirectory
    | some .directory => .ok (place.child name)

/-- Where names lead, each of them through a directory. -/
def walk (t : Tree) (start : Place) (names : List String) : Except FileError Place :=
  names.foldlM t.step start

/-- The path leads to a directory. -/
def isDirectory (t : Tree) (p : Path) : Bool :=
  match t.walk p.start p.names with
  | .ok _ => true
  | .error _ => false

/-- Makes one directory. -/
def makeDirectory (t : Tree) (p : Path) : Except FileError Tree :=
  match p.names.getLast? with
  | none => if p.absolute then .error .alreadyExists else .error .notFound
  | some last => do
    let place ← t.walk p.start p.names.dropLast
    if last = "." ∨ last = ".." then .error .alreadyExists
    else
      match t.node? (place.child last) with
      | some _ => .error .alreadyExists
      | none => .ok (t.put (place.child last) .directory)

/-- Makes one directory, or finds it made. -/
def ensureDirectory (t : Tree) (p : Path) : Except FileError Tree :=
  match t.makeDirectory p with
  | .ok t => .ok t
  | .error e => if t.isDirectory p then .ok t else .error e

/-- How a change ended, and the tree after it: the old one if the change failed. -/
def attempt (t : Tree) : Except FileError Tree → Except FileError Unit × Tree
  | .ok changed => (.ok (), changed)
  | .error e => (.error e, t)

/-- Makes the directories that names lead through, from a place down, where they are missing. -/
def makeWay (t : Tree) (place : Place) : List String → Except FileError Unit × Tree
  | [] => (.ok (), t)
  | name :: rest =>
    match t.step place name with
    | .ok next => t.makeWay next rest
    | .error .notFound => (t.put (place.child name) .directory).makeWay (place.child name) rest
    | .error _ => (.error .alreadyExists, t)

/--
Makes a directory and those above it that are missing: how that ended, and the tree after it. Only
when a directory on the way is missing are those above made; they stay when the directory itself
cannot be made.
-/
def makeDirectories (t : Tree) (p : Path) : Except FileError Unit × Tree :=
  if p.names = [] then (.ok (), t)
  else
    match t.makeDirectory p with
    | .error .notFound =>
      match t.makeWay p.start p.parent.names with
      | (.ok (), above) => above.attempt (above.ensureDirectory p)
      | failed => failed
    | _ => t.attempt (t.ensureDirectory p)

/-- Writes a file, in place of one that was there. -/
def writeFile (t : Tree) (p : Path) (content : List UInt8) : Except FileError Tree :=
  match p.names.getLast? with
  | none => .error .isDirectory
  | some last => do
    let place ← t.walk p.start p.names.dropLast
    if last = "." ∨ last = ".." then .error .isDirectory
    else
      match t.node? (place.child last) with
      | some .directory => .error .isDirectory
      | _ => .ok (t.put (place.child last) (.file content))

end Tree

end TwoWire.SizeReport
