import Mathlib.Data.List.Infix
import TwoWire.Log.Logger

/-!
# Truncated lines

A line holds 128 bytes, and of a longer text it should hold the longest start that fits
(`Truncates`). One piece is cut that way (`truncates_add`), and nothing is cut of pieces that fit.
But a line does not remember that something was dropped: a later piece is tried against the room
that is left, so a narrow character may get in behind a wide one that did not.

The line of a record therefore begins with the truncated text (`truncate_isPrefix_ofRecord`), and
it is just that unless a later piece begins with a character for which there is room
(`truncate_eq_ofRecord_iff`).
-/

namespace TwoWire.Log.Line

/-- The whole text of a record. -/
def fullText (level : Level) (pieces : List String) : List Char :=
  ("[" ++ level.tag ++ "] " ++ String.join pieces).toList

/-- The line is the longest start of the text that fits. -/
structure Truncates (text line : List Char) : Prop where
  isPrefix : line <+: text
  fits : size line ≤ capacity
  longest : ∀ start, start <+: text → size start ≤ capacity → start <+: line

/-! ## Cutting one piece -/

/-- A line grows at its end only. -/
theorem isPrefix_add (line piece : List Char) : line <+: add line piece := by
  induction piece generalizing line with
  | nil => exact List.prefix_rfl
  | cons c rest ih =>
    unfold add
    split
    · exact (List.prefix_append line [c]).trans (ih (line ++ [c]))
    · exact List.prefix_rfl

/-- Nothing is added iff the first character of the piece does not fit. -/
theorem add_eq_self_iff (line piece : List Char) :
    add line piece = line ↔ ∀ c ∈ piece.head?, capacity < size line + c.utf8Size := by
  cases piece with
  | nil => simp [add]
  | cons c rest =>
    by_cases hc : size line + c.utf8Size ≤ capacity
    · have hgrown : line ++ [c] <+: add line (c :: rest) := by
        rw [add, if_pos hc]
        exact isPrefix_add (line ++ [c]) rest
      have hne : add line (c :: rest) ≠ line := by
        intro heq
        have hlength := (heq ▸ hgrown).length_le
        rw [List.length_append, List.length_singleton] at hlength
        omega
      simp [hne, hc]
    · simp [add, hc, Nat.lt_of_not_le hc]

/-- What follows in a piece is tried only if all before it fits. -/
theorem add_append (line a b : List Char) : add line (a ++ b)
    = if size line + size a ≤ capacity then add (line ++ a) b else add line a := by
  induction a generalizing line with
  | nil =>
    rw [List.nil_append, List.append_nil, size_nil, Nat.add_zero]
    split
    · rfl
    · next hover =>
      refine (add_eq_self_iff line b).mpr fun c _ => ?_
      omega
  | cons c a ih =>
    have hsize : size (line ++ [c]) + size a = size line + size (c :: a) := by
      simp [Nat.add_assoc]
    rw [List.cons_append, add, add, ih, hsize, List.append_assoc, List.singleton_append]
    by_cases hc : size line + c.utf8Size ≤ capacity
    · rw [if_pos hc, if_pos hc]
    · have hover : ¬size line + size (c :: a) ≤ capacity := by
        rw [size_cons]
        omega
      rw [if_neg hc, if_neg hc, if_neg hover]

/-- A piece that fits is added as a whole. -/
theorem add_of_fits {line piece : List Char} (h : size line + size piece ≤ capacity) :
    add line piece = line ++ piece := by
  have hwhole := add_append line piece []
  rwa [List.append_nil, if_pos h] at hwhole

/-- One piece is truncated. -/
theorem truncates_add {line : List Char} (h : size line ≤ capacity) (piece : List Char) :
    Truncates (line ++ piece) (add line piece) := by
  refine ⟨?_, size_add_le h piece, fun start hstart hfits => ?_⟩
  · induction piece generalizing line with
    | nil => rw [List.append_nil]; exact List.prefix_rfl
    | cons c rest ih =>
      unfold add
      split
      · next hc =>
        have hgrown : size (line ++ [c]) ≤ capacity := by simpa using hc
        have hrest := ih hgrown
        rwa [List.append_assoc, List.singleton_append] at hrest
      · exact List.prefix_append line (c :: rest)
  · obtain hshort | ⟨kept, rfl⟩ := List.prefix_or_prefix_of_prefix hstart
      (List.prefix_append line piece)
    · exact hshort.trans (isPrefix_add line piece)
    · obtain ⟨dropped, rfl⟩ := (List.prefix_append_right_inj line).mp hstart
      rw [size_append] at hfits
      rw [add_append, if_pos hfits]
      exact isPrefix_add (line ++ kept) dropped

/-! ## Lines of records -/

theorem fullText_concat (level : Level) (front : List String) (piece : String) :
    fullText level (front ++ [piece]) = fullText level front ++ piece.toList := by
  simp [fullText, String.toList_join]

theorem ofRecord_concat (level : Level) (front : List String) (piece : String) :
    ofRecord level (front ++ [piece]) = add (ofRecord level front) piece.toList := by
  simp [ofRecord, ofPieces]

/-- The label of a record fits. -/
theorem ofRecord_nil (level : Level) : ofRecord level [] = fullText level [] := by
  cases level <;> decide

theorem label_isPrefix_ofRecord (level : Level) (pieces : List String) :
    ("[" ++ level.tag ++ "] ").toList <+: ofRecord level pieces := by
  induction pieces using List.reverseRecOn with
  | nil => cases level <;> decide
  | append_singleton front piece ih =>
    rw [ofRecord_concat]
    exact ih.trans (isPrefix_add (ofRecord level front) piece.toList)

theorem size_ofRecord_le (level : Level) (pieces : List String) :
    size (ofRecord level pieces) ≤ capacity := by
  induction pieces using List.reverseRecOn with
  | nil => cases level <;> decide
  | append_singleton front piece ih =>
    rw [ofRecord_concat]
    exact size_add_le ih piece.toList

/-- A record that fits is on its line as a whole. -/
theorem ofRecord_eq_of_fits {level : Level} {pieces : List String}
    (h : size (fullText level pieces) ≤ capacity) :
    ofRecord level pieces = fullText level pieces := by
  induction pieces using List.reverseRecOn with
  | nil => exact ofRecord_nil level
  | append_singleton front piece ih =>
    rw [fullText_concat, size_append] at h
    rw [ofRecord_concat, fullText_concat, ih (by omega)]
    exact add_of_fits h

/-! ## Behind the cut -/

/-- The longest start of a text that fits. -/
def truncate (text : List Char) : List Char := add [] text

theorem truncates_truncate (text : List Char) : Truncates text (truncate text) := by
  have hnothing : size [] ≤ capacity := Nat.zero_le capacity
  exact truncates_add hnothing text

/-- A text that has been cut stays cut. -/
theorem truncate_append_of_not_fits {text : List Char} (h : ¬size text ≤ capacity)
    (more : List Char) : truncate (text ++ more) = truncate text := by
  have hcut := add_append [] text more
  rwa [size_nil, Nat.zero_add, if_neg h] at hcut

/-- More text behind one that fits is one more piece. -/
theorem truncate_append_of_fits {text : List Char} (h : size text ≤ capacity)
    (more : List Char) : truncate (text ++ more) = add text more := by
  have hwhole := add_append [] text more
  rwa [size_nil, Nat.zero_add, if_pos h] at hwhole

/-- The line of a record begins with the truncated text. -/
theorem truncate_isPrefix_ofRecord (level : Level) (pieces : List String) :
    truncate (fullText level pieces) <+: ofRecord level pieces := by
  induction pieces using List.reverseRecOn with
  | nil =>
    rw [ofRecord_nil]
    exact (truncates_truncate _).isPrefix
  | append_singleton front piece ih =>
    rw [fullText_concat, ofRecord_concat]
    by_cases hfront : size (fullText level front) ≤ capacity
    · rw [truncate_append_of_fits hfront, ofRecord_eq_of_fits hfront]
    · rw [truncate_append_of_not_fits hfront]
      exact ih.trans (isPrefix_add (ofRecord level front) piece.toList)

/-- Behind pieces that do not fit, no piece begins with a character for which there is room. -/
def KeepsClosed (level : Level) (pieces : List String) : Prop :=
  ∀ front piece rest, pieces = front ++ piece :: rest → capacity < size (fullText level front) →
    ∀ c ∈ piece.toList.head?, capacity < size (ofRecord level front) + c.utf8Size

/-- Only the last piece is new. -/
theorem keepsClosed_concat_iff (level : Level) (front : List String) (piece : String) :
    KeepsClosed level (front ++ [piece]) ↔ KeepsClosed level front
      ∧ (capacity < size (fullText level front) →
        ∀ c ∈ piece.toList.head?, capacity < size (ofRecord level front) + c.utf8Size) := by
  constructor
  · refine fun h => ⟨fun start next rest hsplit => h start next (rest ++ [piece]) ?_,
      h front piece [] rfl⟩
    rw [hsplit, List.append_assoc, List.cons_append]
  · rintro ⟨hfront, hpiece⟩ start next rest hsplit
    cases rest using List.reverseRecOn with
    | nil =>
      obtain ⟨rfl, rfl⟩ : front = start ∧ piece = next := by simpa using hsplit
      exact hpiece
    | append_singleton rest last =>
      rw [← List.cons_append, ← List.append_assoc] at hsplit
      exact hfront start next rest (List.append_inj_left' hsplit rfl)

/-- The line of a record is the truncated text iff no later piece finds room behind the cut. -/
theorem truncate_eq_ofRecord_iff (level : Level) (pieces : List String) :
    truncate (fullText level pieces) = ofRecord level pieces ↔ KeepsClosed level pieces := by
  induction pieces using List.reverseRecOn with
  | nil =>
    have hlabel : truncate (fullText level []) = ofRecord level [] := by
      cases level <;> decide
    simp [hlabel, KeepsClosed]
  | append_singleton front piece ih =>
    rw [fullText_concat, ofRecord_concat, keepsClosed_concat_iff, ← ih]
    by_cases hfront : size (fullText level front) ≤ capacity
    · have hline := ofRecord_eq_of_fits hfront
      have hnot : ¬capacity < size (fullText level front) := Nat.not_lt_of_le hfront
      have hwhole : truncate (fullText level front) = fullText level front :=
        add_of_fits (by simpa using hfront)
      simp [truncate_append_of_fits hfront, hline, hnot, hwhole]
    · have hover := Nat.lt_of_not_le hfront
      rw [truncate_append_of_not_fits hfront, ← add_eq_self_iff, forall_prop_of_true hover]
      have hstart := truncate_isPrefix_ofRecord level front
      have hgrown := isPrefix_add (ofRecord level front) piece.toList
      constructor
      · intro h
        have hback : ofRecord level front <+: truncate (fullText level front) := h ▸ hgrown
        have hsame := hstart.eq_of_length_le hback.length_le
        exact ⟨hsame, by rw [← h, hsame]⟩
      · rintro ⟨hsame, hnothing⟩
        rw [hsame, hnothing]

/--
**A line is its text cut at 128 bytes, and what later pieces add behind the cut.**

A record that is not dropped goes to the sink as one line. The line starts as the label; each piece
truncates it to the longest start of line and piece that fits in 128 bytes, so that of a single
piece no character stands behind a dropped one. Of several pieces, the line begins with the longest
start of the label and all pieces that fits. It is no more than that iff, whenever the pieces before
some piece do not fit, that piece is empty or begins with a character for which the line has no
room either; in particular if the message is one piece, or fits.
-/
theorem line_begins_with_truncated_text (console : Console) (level : Level) (pieces : List String)
    (hlevel : level.rank ≤ console.maxLevel.rank) :
    Logger.record level pieces console = console.write (encode (ofRecord level pieces))
      ∧ ofRecord level [] = fullText level []
      ∧ (∀ front piece, Truncates (ofRecord level front ++ piece.toList)
          (ofRecord level (front ++ [piece])))
      ∧ ∃ start behind, ofRecord level pieces = start ++ behind
          ∧ Truncates (fullText level pieces) start
          ∧ (behind = [] ↔ KeepsClosed level pieces) := by
  refine ⟨if_pos hlevel, ofRecord_nil level, fun front piece => ?_, ?_⟩
  · rw [ofRecord_concat]
    exact truncates_add (size_ofRecord_le level front) piece.toList
  · obtain ⟨behind, hline⟩ := truncate_isPrefix_ofRecord level pieces
    refine ⟨truncate (fullText level pieces), behind, hline.symm, truncates_truncate _, ?_⟩
    rw [← truncate_eq_ofRecord_iff, ← hline, List.self_eq_append_right]

/-! ## A cut at the last byte -/

theorem size_replicate (count : Nat) (c : Char) :
    size (List.replicate count c) = count * c.utf8Size := by
  induction count with
  | zero => simp
  | succ count ih => rw [List.replicate_succ, size_cons, ih, Nat.succ_mul, Nat.add_comm]

/-- A message of as many `x` takes so many bytes behind the label. -/
theorem size_fullText_replicate (level : Level) (count : Nat) :
    size (fullText level [String.ofList (List.replicate count 'x')])
      = size ("[" ++ level.tag ++ "] ").toList + count := by
  have hone : 'x'.utf8Size = 1 := rfl
  simp [fullText, String.join, size_replicate, hone, Nat.add_assoc]

/-- With one byte left, a wide character takes the rest of its piece with it. -/
theorem add_wide_eq_self {line : List Char} (h : size line = 127) (rest : List Char) :
    add line ('é' :: rest) = line := by
  refine (add_eq_self_iff line ('é' :: rest)).mpr ?_
  rintro c ⟨rfl⟩
  rw [h]
  decide

/-- What does not fit is not on the line, and what follows it in the same piece neither. -/
theorem rest_of_piece_is_dropped :
    let console : Console := ⟨.debug, .limited none none⟩
    let filler := String.ofList (List.replicate 119 'x')
    let pieces := [filler, "éy"]
    KeepsClosed .debug pieces
      ∧ Logger.record .debug pieces console = console.write (encode (fullText .debug [filler]))
      ∧ Truncates (fullText .debug pieces) (fullText .debug [filler]) := by
  intro console filler pieces
  have hsize : size (fullText .debug [filler]) = 127 := size_fullText_replicate .debug 119
  have hfits : size (fullText .debug [filler]) ≤ capacity := by rw [hsize]; decide
  have hsplit : pieces = [filler] ++ ["éy"] := rfl
  have hdropped : ofRecord .debug pieces = fullText .debug [filler] := by
    rw [hsplit, ofRecord_concat, ofRecord_eq_of_fits hfits]
    exact add_wide_eq_self hsize ['y']
  have hclosed : KeepsClosed .debug pieces := by
    rw [← truncate_eq_ofRecord_iff, hdropped, hsplit, fullText_concat,
      truncate_append_of_fits hfits]
    exact add_wide_eq_self hsize ['y']
  obtain ⟨hwrite, -, -, start, behind, hline, htruncates, hbehind⟩ :=
    line_begins_with_truncated_text console .debug pieces (Nat.le_refl _)
  rw [hdropped, hbehind.mpr hclosed, List.append_nil] at hline
  rw [hdropped] at hwrite
  rw [hline]
  exact ⟨hclosed, hline ▸ hwrite, htruncates⟩

/--
A narrow character slips in behind a wide one. The same text in fewer pieces gives another line.
-/
theorem narrow_character_slips_in :
    let console : Console := ⟨.debug, .limited none none⟩
    let filler := String.ofList (List.replicate 120 'x')
    let pieces := [filler, "é", "y"]
    Logger.record .info pieces console = console.write (encode (ofRecord .info pieces))
      ∧ ofRecord .info pieces = fullText .info [filler] ++ ['y']
      ∧ ¬Truncates (fullText .info pieces) (ofRecord .info pieces)
      ∧ fullText .info pieces = fullText .info [filler, "éy"]
      ∧ ofRecord .info [filler, "éy"] = fullText .info [filler] := by
  intro console filler pieces
  have hsize : size (fullText .info [filler]) = 127 := size_fullText_replicate .info 120
  have hfits : size (fullText .info [filler]) ≤ capacity := by rw [hsize]; decide
  have hsplit : pieces = [filler] ++ ["é"] ++ ["y"] := rfl
  have htext : fullText .info pieces = fullText .info [filler] ++ ['é', 'y'] := by
    rw [hsplit, fullText_concat, fullText_concat, List.append_assoc]
    rfl
  have hline : ofRecord .info pieces = fullText .info [filler] ++ ['y'] := by
    rw [hsplit, ofRecord_concat, ofRecord_concat, ofRecord_eq_of_fits hfits]
    show add (add (fullText .info [filler]) ['é']) ['y'] = _
    rw [add_wide_eq_self hsize []]
    exact add_of_fits (by rw [hsize]; decide)
  refine ⟨if_pos (by decide), hline, fun h => ?_, ?_, ?_⟩
  · have hstart := h.isPrefix
    rw [hline, htext, List.prefix_append_right_inj] at hstart
    exact absurd hstart (by decide)
  · rw [htext]
    exact (fullText_concat .info [filler] "éy").symm
  · refine (ofRecord_concat .info [filler] "éy").trans ?_
    rw [ofRecord_eq_of_fits hfits]
    exact add_wide_eq_self hsize ['y']

end TwoWire.Log.Line
