import TwoWire.SizeReport.Options

/-!
# The grammar of the options

Arguments are read as the items that they are written from, and from nothing else
(`Item.readAll_eq_ok_iff`). What follows the first items of other arguments is a misfit, a rest that
no item begins (`Item.Misfit`), and reading fails with what is wrong there, whatever comes after it
(`Item.readAll_eq_error_iff`). An argument behind an option is its value, even if it looks like an
option itself, so the proofs take one item at a time.

The options are then those of the items: each of them holds the value that was given last, or else
its default (`parse_accepts_exactly`).
-/

namespace TwoWire.SizeReport

/-- The name that a format is asked for by. -/
def Format.name : Format → String
  | table => "table"
  | json => "json"
  | csv => "csv"

theorem Format.ofName?_name (format : Format) : ofName? format.name = some format := by
  cases format <;> rfl

theorem Format.eq_name_of_ofName? {name : String} {format : Format}
    (h : ofName? name = some format) : name = format.name := by
  unfold ofName? at h
  split at h
  · next hname =>
    obtain rfl := Option.some.inj h
    exact hname
  · split at h
    · next hname =>
      obtain rfl := Option.some.inj h
      exact hname
    · split at h
      · next hname =>
        obtain rfl := Option.some.inj h
        exact hname
      · cases h

theorem Format.ofName?_eq_none {name : String} (h : ∀ format : Format, name ≠ format.name) :
    ofName? name = none := by
  cases hname : ofName? name with
  | none => rfl
  | some format => exact absurd (eq_name_of_ofName? hname) (h format)

namespace Item

/-! ## How items are written -/

/-- The arguments that an item is written as. -/
def words : Item → List String
  | release => ["--release"]
  | target triple => ["--target", triple]
  | format f => ["--format", f.name]
  | out directory => ["--out", directory]

/-- The arguments that some items are written as, one after another. -/
def written (items : List Item) : List String := items.flatMap words

theorem written_cons_append (item : Item) (items : List Item) (rest : List String) :
    written (item :: items) ++ rest = item.words ++ (written items ++ rest) := by
  rw [written, List.flatMap_cons, List.append_assoc]
  rfl

/-- The options that take a value. -/
def valued : List String := ["--target", "--out", "--format"]

theorem mem_valued_iff {option : String} :
    option ∈ valued ↔ option = "--target" ∨ option = "--out" ∨ option = "--format" := by
  simp [valued]

/-- Arguments that no item begins, and what is wrong with the first of them. -/
inductive Misfit : List String → OptionError → Prop
  /-- The arguments end where a value is due. -/
  | missingValue {option : String} (h : option ∈ valued) : Misfit [option] (.missingValue option)
  | unknownFormat {name : String} (h : ∀ format : Format, name ≠ format.name)
    (rest : List String) : Misfit ("--format" :: name :: rest) (.unknownFormat name)
  | unknownOption {argument : String} (h : argument ∉ "--release" :: valued)
    (rest : List String) : Misfit (argument :: rest) (.unknownOption argument)

/-! ## Reading -/

/-- An item is read from its words, and reading goes on behind them. -/
theorem readAll_words_append (item : Item) (rest : List String) :
    readAll (item.words ++ rest) = (item :: ·) <$> readAll rest := by
  cases item with
  | format f =>
    show readAll ("--format" :: f.name :: rest) = _
    rw [readAll, Format.ofName?_name]
    rfl
  | release => rfl
  | target triple => rfl
  | out directory => rfl

/-- Items are read back, and reading goes on behind them. -/
theorem readAll_written_append (items : List Item) (rest : List String) :
    readAll (written items ++ rest) = (items ++ ·) <$> readAll rest := by
  induction items with
  | nil => exact (id_map (readAll rest)).symm
  | cons item items ih =>
    rw [written_cons_append, readAll_words_append, ih]
    cases readAll rest <;> rfl

/-- At a misfit reading fails. -/
theorem Misfit.readAll {rest : List String} {error : OptionError} (h : Misfit rest error) :
    readAll rest = .error error := by
  cases h with
  | missingValue h =>
    rcases mem_valued_iff.mp h with rfl | rfl | rfl <;> rfl
  | unknownFormat h rest => rw [Item.readAll, Format.ofName?_eq_none h]
  | @unknownOption argument h rest =>
    obtain ⟨hrelease, hvalued⟩ := List.ne_and_not_mem_of_not_mem_cons h
    have hnone := mt mem_valued_iff.mpr hvalued
    rw [Item.readAll, if_neg hnone]
    · exact hrelease
    · exact fun _ _ heq => absurd (.inl heq) hnone
    · exact fun _ _ heq => absurd (.inr (.inl heq)) hnone
    · exact fun _ _ heq => absurd (.inr (.inr heq)) hnone

/-- Arguments are written items to their end, or up to a misfit. -/
theorem exists_written (arguments : List String) : ∃ items rest,
    arguments = written items ++ rest ∧ (rest = [] ∨ ∃ error, Misfit rest error) := by
  have hmisfit : ∀ {rest : List String} {error : OptionError}, Misfit rest error →
      ∃ items more, rest = written items ++ more ∧ (more = [] ∨ ∃ error, Misfit more error) :=
    fun h => ⟨[], _, rfl, .inr ⟨_, h⟩⟩
  have hitem : ∀ (item : Item) {rest : List String},
      (∃ items more, rest = written items ++ more ∧ (more = [] ∨ ∃ error, Misfit more error)) →
        ∃ items more, item.words ++ rest = written items ++ more
          ∧ (more = [] ∨ ∃ error, Misfit more error) := by
    rintro item _ ⟨items, more, rfl, hmore⟩
    exact ⟨item :: items, more, (written_cons_append item items more).symm, hmore⟩
  fun_induction Item.readAll arguments with
  | case1 => exact ⟨[], [], rfl, .inl rfl⟩
  | case2 rest ih => exact hitem release ih
  | case3 value rest ih => exact hitem (target value) ih
  | case4 value rest ih => exact hitem (out value) ih
  | case5 name rest hname =>
    refine hmisfit (.unknownFormat (fun format heq => ?_) rest)
    rw [heq, Format.ofName?_name] at hname
    cases hname
  | case6 name rest f hname ih =>
    obtain rfl := Format.eq_name_of_ofName? hname
    exact hitem (format f) ih
  | case7 argument tail _ htarget hout hformat hvalued =>
    -- an option that takes a value, and nothing behind it
    have htail : tail = [] := by
      cases tail with
      | nil => rfl
      | cons value rest =>
        rcases hvalued with h | h | h
        · exact (htarget value rest h rfl).elim
        · exact (hout value rest h rfl).elim
        · exact (hformat value rest h rfl).elim
    rw [htail]
    exact hmisfit (.missingValue (mem_valued_iff.mpr hvalued))
  | case8 argument tail hrelease _ _ _ hvalued =>
    have hnone : argument ∉ valued := fun hmem => hvalued (mem_valued_iff.mp hmem)
    exact hmisfit (.unknownOption (List.not_mem_cons_of_ne_of_not_mem hrelease hnone) tail)

/-- **Items are read from what they are written as, and from nothing else.** -/
theorem readAll_eq_ok_iff {arguments : List String} {items : List Item} :
    readAll arguments = .ok items ↔ arguments = written items := by
  constructor
  · intro h
    obtain ⟨items', rest, rfl, hend⟩ := exists_written arguments
    rw [readAll_written_append] at h
    rcases hend with rfl | ⟨error, hmisfit⟩
    · obtain rfl : items' ++ [] = items := Except.ok.inj h
      rw [List.append_nil, List.append_nil]
    · rw [hmisfit.readAll] at h
      cases h
  · rintro rfl
    have h := readAll_written_append items []
    rw [List.append_nil] at h
    rw [h]
    exact congrArg Except.ok (List.append_nil items)

/-- **Reading fails at the leftmost misfit, with what is wrong there.** -/
theorem readAll_eq_error_iff {arguments : List String} {error : OptionError} :
    readAll arguments = .error error
      ↔ ∃ items rest, arguments = written items ++ rest ∧ Misfit rest error := by
  constructor
  · intro h
    obtain ⟨items, rest, rfl, hend⟩ := exists_written arguments
    rw [readAll_written_append] at h
    rcases hend with rfl | ⟨error', hmisfit⟩
    · cases h
    · rw [hmisfit.readAll] at h
      obtain rfl : error' = error := Except.error.inj h
      exact ⟨items, rest, rfl, hmisfit⟩
  · rintro ⟨items, rest, rfl, hmisfit⟩
    rw [readAll_written_append, hmisfit.readAll]
    rfl

/-! ## Values -/

def triple? : Item → Option String
  | target triple => some triple
  | _ => none

def format? : Item → Option Format
  | format f => some f
  | _ => none

def directory? : Item → Option String
  | out directory => some directory
  | _ => none

/-- The last of the values that some items give, or else the default. -/
def lastValue {α : Type} (value? : Item → Option α) (default : α) (items : List Item) : α :=
  (items.filterMap value?).getLast?.getD default

/-- A part of the options that each item replaces or keeps holds the value that was given last. -/
theorem foldl_apply_eq_lastValue {α : Type} {part : Options → α} (value? : Item → Option α)
    (h : ∀ options item, part (apply options item) = (value? item).getD (part options))
    (items : List Item) (options : Options) :
    part (items.foldl apply options) = lastValue value? (part options) items := by
  induction items generalizing options with
  | nil => rfl
  | cons item rest ih =>
    rw [List.foldl_cons, ih, h, lastValue, lastValue]
    cases hvalue : value? item with
    | none => rw [List.filterMap_cons_none hvalue, Option.getD_none]
    | some value =>
      rw [List.filterMap_cons_some hvalue, List.getLast?_cons, Option.getD_some]
      rfl

theorem foldl_apply_release (items : List Item) (options : Options) :
    (items.foldl apply options).release = true ↔ options.release = true ∨ release ∈ items := by
  induction items generalizing options with
  | nil => simp
  | cons item rest ih =>
    rw [List.foldl_cons, ih]
    cases item <;> simp [apply]

end Item

/-! ## Options -/

/-- The options that some items ask for: each value is the last one given, or else the default. -/
structure Options.AskedFor (options : Options) (items : List Item) : Prop where
  release : options.release = true ↔ Item.release ∈ items
  target : options.target = Item.lastValue Item.triple? "thumbv7em-none-eabihf" items
  format : options.format = Item.lastValue Item.format? .table items
  out : options.out = Item.lastValue Item.directory? "target/bloat" items

theorem Options.askedFor_iff {options : Options} {items : List Item} :
    options.AskedFor items ↔ options = items.foldl Item.apply {} := by
  have hrelease := Item.foldl_apply_release items {}
  have htarget : (items.foldl Item.apply {}).target = _ :=
    Item.foldl_apply_eq_lastValue Item.triple?
      (fun _ item => by cases item <;> rfl) items {}
  have hformat : (items.foldl Item.apply {}).format = _ :=
    Item.foldl_apply_eq_lastValue Item.format?
      (fun _ item => by cases item <;> rfl) items {}
  have hout : (items.foldl Item.apply {}).out = _ :=
    Item.foldl_apply_eq_lastValue Item.directory?
      (fun _ item => by cases item <;> rfl) items {}
  constructor
  · intro h
    have hsame : options.release = (items.foldl Item.apply {}).release := by
      rw [Bool.eq_iff_iff, h.release, hrelease]
      simp
    obtain ⟨release, target, format, out⟩ := options
    obtain rfl : release = _ := hsame
    obtain rfl : target = _ := h.target
    obtain rfl : format = _ := h.format
    obtain rfl : out = _ := h.out
    rw [← htarget, ← hformat, ← hout]
  · rintro rfl
    exact ⟨by simpa using hrelease, htarget, hformat, hout⟩

theorem parse_eq (arguments : List String) : Options.parse arguments
    = (fun items => items.foldl Item.apply {}) <$> Item.readAll arguments := rfl

theorem parse_eq_ok_iff {arguments : List String} {options : Options} :
    Options.parse arguments = .ok options
      ↔ ∃ items, arguments = Item.written items ∧ options.AskedFor items := by
  rw [parse_eq]
  constructor
  · intro h
    cases hread : Item.readAll arguments with
    | error error =>
      rw [hread] at h
      cases h
    | ok items =>
      rw [hread] at h
      exact ⟨items, Item.readAll_eq_ok_iff.mp hread,
        Options.askedFor_iff.mpr (Except.ok.inj h).symm⟩
  · rintro ⟨items, hwritten, hasked⟩
    rw [Item.readAll_eq_ok_iff.mpr hwritten, Options.askedFor_iff.mp hasked]
    rfl

theorem parse_eq_error_iff {arguments : List String} {error : OptionError} :
    Options.parse arguments = .error error
      ↔ ∃ items rest, arguments = Item.written items ++ rest ∧ Item.Misfit rest error := by
  rw [← Item.readAll_eq_error_iff, parse_eq]
  cases Item.readAll arguments with
  | error error' => exact ⟨fun h => congrArg Except.error (Except.error.inj h), fun h =>
      congrArg Except.error (Except.error.inj h)⟩
  | ok items => exact iff_of_false nofun nofun

/--
**Options are parsed from their grammar, and from nothing else.**

Arguments are accepted if they are written items: `--release`, `--target`, `--format` and `--out`,
the last three with a value, which for a format is one of its names and otherwise any text, even one
that looks like an option. The options are those that the items ask for. Other arguments are refused
for the leftmost one that does not fit.
-/
theorem parse_accepts_exactly (arguments : List String) :
    ((∃ options, Options.parse arguments = .ok options) ↔ ∃ items, arguments = Item.written items)
      ∧ (∀ options, Options.parse arguments = .ok options
        ↔ ∃ items, arguments = Item.written items ∧ options.AskedFor items)
      ∧ ∀ error, Options.parse arguments = .error error
        ↔ ∃ items rest, arguments = Item.written items ++ rest ∧ Item.Misfit rest error := by
  refine ⟨⟨?_, ?_⟩, fun options => parse_eq_ok_iff, fun error => parse_eq_error_iff⟩
  · rintro ⟨options, h⟩
    obtain ⟨items, hwritten, -⟩ := parse_eq_ok_iff.mp h
    exact ⟨items, hwritten⟩
  · rintro ⟨items, hwritten⟩
    exact ⟨_, parse_eq_ok_iff.mpr ⟨items, hwritten, Options.askedFor_iff.mpr rfl⟩⟩

/-- A value may look like an option, the last one given holds, and the first misfit is reported. -/
theorem last_target_holds :
    Options.parse ["--target", "--out", "--release", "--format", "csv", "--target", "armv7"]
        = .ok ⟨true, "armv7", .csv, "target/bloat"⟩
      ∧ Options.parse ["--release", "--format", "xml", "--bogus", "--out"]
        = .error (.unknownFormat "xml") := by
  constructor
  · refine ((parse_accepts_exactly _).2.1 _).mpr
      ⟨[.target "--out", .release, .format .csv, .target "armv7"], rfl, ?_⟩
    exact ⟨by decide, rfl, rfl, rfl⟩
  · refine ((parse_accepts_exactly _).2.2 _).mpr
      ⟨[.release], ["--format", "xml", "--bogus", "--out"], rfl, ?_⟩
    exact .unknownFormat (fun format => by cases format <;> decide) _

end TwoWire.SizeReport
