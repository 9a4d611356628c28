import TwoWire.Codec.InitTable

/-!
# Flat init tables

Reading a flat table undoes writing one, whatever stands behind its end (`ofFlat_toFlat_append`);
and of any bytes at all, reading keeps the longest start that is a flat table (`Pairs`). A byte is
an end mark only in the place of an offset, so the proofs take two bytes at a time.
-/

namespace TwoWire.Codec.InitTable

/-- Complete pairs of bytes, none of which begins with the end mark. -/
inductive Pairs : List UInt8 → Prop
  | nil : Pairs []
  | cons {offset : UInt8} (value : UInt8) {rest : List UInt8} (hoffset : offset ≠ sentinel)
    (hrest : Pairs rest) : Pairs (offset :: value :: rest)

/-! ## Reading what was written -/

/-- Entries are read back, and reading goes on behind them. -/
theorem ofFlat_toFlat_append {entries : List InitEntry}
    (h : ∀ e ∈ entries, e.offset ≠ sentinel) (rest : List UInt8) :
    ofFlat (toFlat entries ++ rest) = entries ++ ofFlat rest := by
  induction entries with
  | nil => rfl
  | cons e entries ih =>
    obtain ⟨he, hentries⟩ := List.forall_mem_cons.mp h
    rw [toFlat_cons, List.cons_append, List.cons_append, ofFlat, if_neg he, ih hentries]
    rfl

/-- An end mark in the place of an offset ends the table. -/
theorem ofFlat_sentinel (more : List UInt8) : ofFlat (sentinel :: more) = [] := by
  cases more with
  | nil => rfl
  | cons value more => rw [ofFlat, if_pos rfl]

/-! ## Writing what was read -/

/-- What has been read is a start of the table. -/
theorem toFlat_ofFlat_isPrefix (table : List UInt8) : toFlat (ofFlat table) <+: table := by
  fun_induction ofFlat table with
  | case1 value rest => exact List.nil_prefix
  | case2 offset value rest hoffset ih =>
    rw [toFlat_cons, List.prefix_cons_inj, List.prefix_cons_inj]
    exact ih
  | case3 table hshort => exact List.nil_prefix

/-- Only complete pairs are read. -/
theorem pairs_toFlat_ofFlat (table : List UInt8) : Pairs (toFlat (ofFlat table)) := by
  fun_induction ofFlat table with
  | case1 value rest => exact .nil
  | case2 offset value rest hoffset ih => exact .cons value hoffset ih
  | case3 table hshort => exact .nil

/-- All complete pairs up to the end mark are read. -/
theorem Pairs.isPrefix_toFlat_ofFlat {bytes table : List UInt8} (h : Pairs bytes)
    (hstart : bytes <+: table) : bytes <+: toFlat (ofFlat table) := by
  induction h generalizing table with
  | nil => exact List.nil_prefix
  | @cons offset value rest hoffset hrest ih =>
    obtain ⟨behind, rfl⟩ := hstart
    have hread : ofFlat (offset :: value :: rest ++ behind)
        = ⟨offset, value⟩ :: ofFlat (rest ++ behind) := if_neg hoffset
    rw [hread, toFlat_cons, List.prefix_cons_inj, List.prefix_cons_inj]
    exact ih (List.prefix_append rest behind)

/-! ## Both ways -/

/--
**Flat tables are read exactly.**

Entries whose offsets are not the end mark come back from their bytes, be it that the bytes end
there, that the end mark and any more bytes follow, or that a single byte follows. And of every
table, the entries read stand for its longest start that is made of complete pairs with an offset
other than the end mark. Values are arbitrary in both cases.
-/
theorem flat_tables_read_exactly :
    (∀ entries : List InitEntry, (∀ e ∈ entries, e.offset ≠ sentinel) →
      ofFlat (toFlat entries) = entries
        ∧ (∀ more, ofFlat (toFlat entries ++ sentinel :: more) = entries)
        ∧ ∀ last, ofFlat (toFlat entries ++ [last]) = entries)
    ∧ ∀ table : List UInt8, toFlat (ofFlat table) <+: table ∧ Pairs (toFlat (ofFlat table))
      ∧ ∀ bytes, bytes <+: table → Pairs bytes → bytes <+: toFlat (ofFlat table) := by
  refine ⟨fun entries h => ⟨?_, fun more => ?_, fun last => ?_⟩, fun table => ?_⟩
  · have hwhole := ofFlat_toFlat_append h []
    have hnothing : ofFlat [] = [] := by simp [ofFlat]
    rwa [hnothing, List.append_nil, List.append_nil] at hwhole
  · rw [ofFlat_toFlat_append h, ofFlat_sentinel, List.append_nil]
  · have hlone : ofFlat [last] = [] := by simp [ofFlat]
    rw [ofFlat_toFlat_append h, hlone, List.append_nil]
  · exact ⟨toFlat_ofFlat_isPrefix table, pairs_toFlat_ofFlat table,
      fun bytes hstart hpairs => hpairs.isPrefix_toFlat_ofFlat hstart⟩

/-- The end mark as a value is kept; in the place of the next offset it ends the table. -/
theorem marked_value_is_kept :
    ofFlat [0x0A, 0xFF, 0x19, 0x13, 0xFF, 0x42, 0x43] = [⟨0x0A, 0xFF⟩, ⟨0x19, 0x13⟩]
      ∧ ofFlat [0x0A, 0xFF, 0x19, 0x13, 0x42] = [⟨0x0A, 0xFF⟩, ⟨0x19, 0x13⟩]
      ∧ [0x0A, 0xFF] <+: toFlat (ofFlat [0x0A, 0xFF, 0xFF]) := by
  have hunmarked : ∀ e ∈ [InitEntry.mk 0x0A 0xFF, ⟨0x19, 0x13⟩], e.offset ≠ sentinel := by decide
  obtain ⟨-, hended, hodd⟩ := flat_tables_read_exactly.1 _ hunmarked
  obtain ⟨-, -, hlongest⟩ := flat_tables_read_exactly.2 [0x0A, 0xFF, 0xFF]
  exact ⟨hended [0x42, 0x43], hodd 0x42,
    hlongest _ (by decide) (.cons 0xFF (by decide) .nil)⟩

end TwoWire.Codec.InitTable
