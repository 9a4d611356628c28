import TwoWire.SizeReport.Command

/-!
# Files of the reports

A walk goes through directories only, so what it leads to stays the same as long as directories stay
directories (`Tree.KeepsDirectories.walk`). Making a directory and writing a file both keep them.

A directory that has been made together with those above it can be walked to
(`Tree.walk_of_makeDirectories`). A tree holds the reports of a directory if that can be walked to
and no directory is in the way of a report (`Tree.Holds`), and writing one report leaves it so. What
the files hold is told by their paths (`Tree.content?`).
-/

namespace TwoWire.SizeReport

/-! ## Paths -/

namespace Path

/-- The path of a name below another path. -/
def entry (p : Path) (name : String) : Path := { p with names := p.names ++ [name] }

theorem getLast?_names_entry (p : Path) (name : String) :
    (p.entry name).names.getLast? = some name := List.getLast?_concat

theorem dropLast_names_entry (p : Path) (name : String) :
    (p.entry name).names.dropLast = p.names := List.dropLast_concat

theorem eq_nil_or_entry (p : Path) : p.names = [] ∨ ∃ above name, p = entry above name := by
  obtain ⟨absolute, names⟩ := p
  obtain rfl | ⟨front, name, rfl⟩ := names.eq_nil_or_concat
  · exact .inl rfl
  · exact .inr ⟨⟨absolute, front⟩, name, by rw [List.concat_eq_append, entry]⟩

theorem start_entry (p : Path) (name : String) : (p.entry name).start = p.start := rfl

/-- A name behind a slash is the last name of the path. -/
theorem ofText_append_slash_append (text : String) {name : String} (hslash : '/' ∉ name.toList)
    (hname : name ≠ "") : ofText (text ++ "/" ++ name) = (ofText (text ++ "/")).entry name := by
  have hchars : (text ++ "/" ++ name).toList = text.toList ++ '/' :: name.toList := by simp
  have hopen : (text ++ "/").toList = text.toList ++ '/' :: [] := by simp
  have habsolute : "/".toList.isPrefixOf (text.toList ++ '/' :: name.toList)
      = "/".toList.isPrefixOf (text.toList ++ '/' :: []) := by
    cases text.toList <;> rfl
  rw [ofText, ofText, entry, hchars, hopen, habsolute]
  simp [List.splitOn_append_cons_self, List.splitOn_eq_singleton hslash, hname]

/-- A slash at the end of a path does not matter, unless it is all of it. -/
theorem ofText_append_slash {text : String} (h : text ≠ "") :
    ofText (text ++ "/") = ofText text := by
  have hopen : (text ++ "/").toList = text.toList ++ '/' :: [] := by simp
  have habsolute : "/".toList.isPrefixOf (text.toList ++ '/' :: [])
      = "/".toList.isPrefixOf text.toList := by
    cases hchars : text.toList with
    | nil => exact absurd (String.toList_eq_nil_iff.mp hchars) h
    | cons => rfl
  rw [ofText, ofText, hopen, habsolute]
  simp [List.splitOn_append_cons_self]

end Path

theorem Place.child_inj {place : Place} {name other : String} :
    place.child name = place.child other ↔ name = other := by
  constructor
  · intro h
    simpa [names, child] using congrArg names h
  · rintro rfl
    rfl

/-! ## Changes of a tree -/

namespace Tree

variable {t changed : Tree}

theorem node?_put_same (t : Tree) (place : Place) (node : Node) :
    (t.put place node).node? place = some node := by
  have hnone : (t.entries.filter (·.1 ≠ place)).find? (·.1 = place) = none := by
    simp [List.find?_eq_none]
  rw [node?, put, List.find?_append, hnone]
  simp

theorem node?_put_of_ne {place other : Place} (h : other ≠ place) (node : Node) :
    (t.put place node).node? other = t.node? other := by
  have hnone : [(place, node)].find? (·.1 = other) = none := by
    simp [Ne.symm h]
  have hkept : (t.entries.filter (·.1 ≠ place)).find? (·.1 = other)
      = t.entries.find? (·.1 = other) := by
    rw [List.find?_filter]
    congr 1
    funext entry
    by_cases heq : entry.1 = other
    · simp [heq, h]
    · simp [heq]
  rw [node?, put, List.find?_append, hnone, hkept, Option.or_none]
  rfl

/-- Directories stay what they are. -/
def KeepsDirectories (t changed : Tree) : Prop :=
  ∀ place, t.node? place = some .directory → changed.node? place = some .directory

theorem keepsDirectories_put {place : Place} {node : Node}
    (h : t.node? place = some .directory → node = .directory) :
    t.KeepsDirectories (t.put place node) := by
  intro other hother
  by_cases heq : other = place
  · subst heq
    rw [node?_put_same, h hother]
  · rw [node?_put_of_ne heq, hother]

/-- A name that is no dots leads to its directory. -/
theorem step_eq_ok {place : Place} {name : String} (hdot : name ≠ ".") (hup : name ≠ "..")
    (h : t.node? (place.child name) = some .directory) :
    t.step place name = .ok (place.child name) := by
  rw [step, if_neg hdot, if_neg hup, h]

theorem KeepsDirectories.step (h : t.KeepsDirectories changed) {place next : Place}
    {name : String} (hstep : t.step place name = .ok next) :
    changed.step place name = .ok next := by
  unfold Tree.step at hstep
  split at hstep
  · next hdot => rw [Tree.step, if_pos hdot, hstep]
  · next hdot =>
    split at hstep
    · next hup => rw [Tree.step, if_neg hdot, if_pos hup, hstep]
    · next hup =>
      split at hstep
      · cases hstep
      · cases hstep
      · next hnode => rw [step_eq_ok hdot hup (h _ hnode), ← hstep]

theorem walk_cons (t : Tree) (start : Place) (name : String) (names : List String) :
    t.walk start (name :: names) = t.step start name >>= fun next => t.walk next names :=
  List.foldlM_cons

theorem walk_concat (t : Tree) (start : Place) (names : List String) (name : String) :
    t.walk start (names ++ [name]) = t.walk start names >>= fun place => t.step place name := by
  rw [walk, List.foldlM_append]
  simp only [List.foldlM_cons, List.foldlM_nil, bind_pure]
  rfl

/-- A walk that leads somewhere leads there as long as directories stay. -/
theorem KeepsDirectories.walk (h : t.KeepsDirectories changed) {start place : Place}
    {names : List String} (hwalk : t.walk start names = .ok place) :
    changed.walk start names = .ok place := by
  induction names generalizing start with
  | nil => exact hwalk
  | cons name rest ih =>
    rw [walk_cons] at hwalk ⊢
    cases hstep : t.step start name with
    | error e =>
      rw [hstep] at hwalk
      cases hwalk
    | ok next =>
      rw [hstep] at hwalk
      rw [h.step hstep]
      exact ih hwalk

/-- A path leads into a directory below the place where the path above it leads. -/
theorem walk_entry {p : Path} {dir : Place} {name : String}
    (hwalk : t.walk p.start p.names = .ok dir) (hdot : name ≠ ".") (hup : name ≠ "..")
    (h : t.node? (dir.child name) = some .directory) :
    t.walk (p.entry name).start (p.entry name).names = .ok (dir.child name) := by
  rw [Path.start_entry, Path.entry, walk_concat, hwalk]
  exact step_eq_ok hdot hup h

/-! ## Making directories -/

/-- A directory that was made can be walked to. -/
theorem walk_of_makeDirectory {p : Path} (h : t.makeDirectory p = .ok changed) :
    ∃ place, changed.walk p.start p.names = .ok place := by
  obtain hnames | ⟨above, name, rfl⟩ := p.eq_nil_or_entry
  · exact ⟨p.start, by rw [hnames]; rfl⟩
  · simp only [makeDirectory, Path.getLast?_names_entry, Path.dropLast_names_entry,
      Path.start_entry] at h
    cases hwalk : t.walk above.start above.names with
    | error e =>
      rw [hwalk] at h
      cases h
    | ok dir =>
      simp only [hwalk, bind, Except.bind] at h
      split at h
      · cases h
      · next hdots =>
        obtain ⟨hdot, hup⟩ := not_or.mp hdots
        split at h
        · cases h
        · obtain rfl := Except.ok.inj h
          have hkeeps : t.KeepsDirectories (t.put (dir.child name) .directory) :=
            keepsDirectories_put fun _ => rfl
          exact ⟨dir.child name, walk_entry (hkeeps.walk hwalk) hdot hup (node?_put_same _ _ _)⟩

theorem walk_of_ensureDirectory {p : Path} (h : t.ensureDirectory p = .ok changed) :
    ∃ place, changed.walk p.start p.names = .ok place := by
  unfold ensureDirectory at h
  split at h
  · next hmade =>
    obtain rfl := Except.ok.inj h
    exact walk_of_makeDirectory hmade
  · split at h
    · next hthere =>
      obtain rfl := Except.ok.inj h
      unfold isDirectory at hthere
      split at hthere
      · next place hwalk => exact ⟨place, hwalk⟩
      · cases hthere
    · cases h

theorem walk_of_attempt {p : Path} (h : (t.attempt (t.ensureDirectory p)).1 = .ok ()) :
    ∃ place, (t.attempt (t.ensureDirectory p)).2.walk p.start p.names = .ok place := by
  cases hensured : t.ensureDirectory p with
  | error e =>
    rw [hensured] at h
    cases h
  | ok made => exact walk_of_ensureDirectory hensured

/-- **A directory that was made with those above it can be walked to.** -/
theorem walk_of_makeDirectories {p : Path} (h : (t.makeDirectories p).1 = .ok ()) :
    ∃ place, (t.makeDirectories p).2.walk p.start p.names = .ok place := by
  by_cases hnames : p.names = []
  · rw [hnames]
    exact ⟨p.start, rfl⟩
  · rw [makeDirectories, if_neg hnames] at h ⊢
    cases hmade : t.makeDirectory p with
    | ok made =>
      simp only [hmade] at h ⊢
      exact walk_of_attempt h
    | error e =>
      cases e with
      | notFound =>
        simp only [hmade] at h ⊢
        split at h
        · exact walk_of_attempt h
        -- the directories above could not be made, which `h` rules out
        · next hfailed => exact (hfailed _ (Prod.ext h rfl)).elim
      | _ =>
        simp only [hmade] at h ⊢
        exact walk_of_attempt h

/-! ## Writing files -/

theorem writeFile_entry {p : Path} {dir : Place} {name : String}
    (hwalk : t.walk p.start p.names = .ok dir) (hdot : name ≠ ".") (hup : name ≠ "..")
    (hfree : t.node? (dir.child name) ≠ some .directory) (content : List UInt8) :
    t.writeFile (p.entry name) content = .ok (t.put (dir.child name) (.file content)) := by
  simp only [writeFile, Path.getLast?_names_entry, Path.dropLast_names_entry, Path.start_entry,
    hwalk, bind, Except.bind, hdot, hup, or_self, if_false]

/-- What the file that a path leads to holds, if it leads to one. -/
def content? (t : Tree) (p : Path) : Option (List UInt8) :=
  match p.names.getLast?, t.walk p.start p.names.dropLast with
  | some name, .ok dir =>
    match t.node? (dir.child name) with
    | some (.file content) => some content
    | _ => none
  | _, _ => none

theorem content?_congr {p : Path} {dir : Place} {name : String}
    (hwalk : t.walk p.start p.names = .ok dir) (hchanged : changed.walk p.start p.names = .ok dir)
    (h : changed.node? (dir.child name) = t.node? (dir.child name)) :
    changed.content? (p.entry name) = t.content? (p.entry name) := by
  simp only [content?, Path.getLast?_names_entry, Path.dropLast_names_entry, Path.start_entry,
    hwalk, hchanged, h]

theorem content?_entry {p : Path} {dir : Place} {name : String} {content : List UInt8}
    (hwalk : t.walk p.start p.names = .ok dir)
    (h : t.node? (dir.child name) = some (.file content)) :
    t.content? (p.entry name) = some content := by
  simp only [content?, Path.getLast?_names_entry, Path.dropLast_names_entry, Path.start_entry,
    hwalk, h]

end Tree

/-! ## Reports -/

/-- The path of the directory of the reports. -/
def reportDirectory (out : String) : Path := .ofText (out ++ "/")

namespace Report

/-- The name of the file of a report. -/
def fileName (report : Report) : String := "bloat_" ++ report.name ++ ".txt"

theorem fileName_inj {report other : Report} :
    report.fileName = other.fileName ↔ report = other := by
  cases report <;> cases other <;> decide

theorem fileName_ne_dot (report : Report) : report.fileName ≠ "." := by
  cases report <;> decide

theorem fileName_ne_up (report : Report) : report.fileName ≠ ".." := by
  cases report <;> decide

theorem ofText_file (report : Report) (out : String) :
    .ofText (report.file out) = (reportDirectory out).entry report.fileName := by
  have hfile : report.file out = out ++ "/" ++ report.fileName := by
    have hslash : "/bloat_" = "/" ++ "bloat_" := rfl
    simp only [file, fileName, hslash, String.append_assoc]
  rw [hfile]
  refine Path.ofText_append_slash_append out ?_ ?_
  · cases report <;> decide
  · cases report <;> decide

end Report

/-- The directory of the reports can be made, and then no directory is in the way of a report. -/
structure Tree.Hosts (t : Tree) (out : String) : Prop where
  creatable : (t.makeDirectories (.ofText out)).1 = .ok ()
  writable : ∀ report : Report,
    (t.makeDirectories (.ofText out)).2.isDirectory (.ofText (report.file out)) = false

/-- The directory of the reports is there, and no directory is in the way of a report. -/
structure Tree.Holds (t : Tree) (out : String) (dir : Place) : Prop where
  leads : t.walk (reportDirectory out).start (reportDirectory out).names = .ok dir
  free : ∀ report : Report, t.node? (dir.child report.fileName) ≠ some .directory

namespace Tree

variable {t : Tree} {out : String} {dir : Place}

theorem Hosts.exists_holds (h : t.Hosts out) :
    ∃ dir, (t.makeDirectories (.ofText out)).2.Holds out dir := by
  obtain ⟨dir, hdir⟩ : ∃ dir, (t.makeDirectories (.ofText out)).2.walk (reportDirectory out).start
      (reportDirectory out).names = .ok dir := by
    -- without a directory, the slash in front of a report's name makes its path start at the root
    by_cases hout : out = ""
    · subst hout
      exact ⟨.ofBase .root, rfl⟩
    · rw [reportDirectory, Path.ofText_append_slash hout]
      exact walk_of_makeDirectories h.creatable
  refine ⟨dir, hdir, fun report hnode => ?_⟩
  have hthere := h.writable report
  rw [report.ofText_file, isDirectory,
    walk_entry hdir report.fileName_ne_dot report.fileName_ne_up hnode] at hthere
  cases hthere

/-- In its directory, a report is written to its file. -/
theorem Holds.writeFile (h : t.Holds out dir) (report : Report) (content : List UInt8) :
    t.writeFile (.ofText (report.file out)) content
      = .ok (t.put (dir.child report.fileName) (.file content)) := by
  rw [report.ofText_file]
  exact writeFile_entry h.leads report.fileName_ne_dot report.fileName_ne_up (h.free report) content

/-- A report that is written leaves room for the others. -/
theorem Holds.put (h : t.Holds out dir) (report : Report) (content : List UInt8) :
    (t.put (dir.child report.fileName) (.file content)).Holds out dir where
  leads := by
    refine (keepsDirectories_put fun hdirectory => ?_).walk h.leads
    exact absurd hdirectory (h.free report)
  free other hother := by
    by_cases heq : dir.child other.fileName = dir.child report.fileName
    · rw [heq, node?_put_same] at hother
      cases hother
    · rw [node?_put_of_ne heq] at hother
      exact h.free other hother

theorem Holds.content?_eq_some (h : t.Holds out dir) {report : Report} {content : List UInt8}
    (hnode : t.node? (dir.child report.fileName) = some (.file content)) :
    t.content? (.ofText (report.file out)) = some content := by
  rw [report.ofText_file]
  exact content?_entry h.leads hnode

theorem Holds.content?_congr {changed : Tree} (h : t.Holds out dir)
    (hchanged : changed.Holds out dir) {report : Report}
    (hnode : changed.node? (dir.child report.fileName) = t.node? (dir.child report.fileName)) :
    changed.content? (.ofText (report.file out)) = t.content? (.ofText (report.file out)) := by
  rw [report.ofText_file]
  exact Tree.content?_congr h.leads hchanged.leads hnode

end Tree

end TwoWire.SizeReport
