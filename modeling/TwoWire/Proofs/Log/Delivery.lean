import TwoWire.Proofs.Log.Truncation
import TwoWire.Proofs.Loggers

/-!
# Delivery of records

A console writes two buffers a record, the line and its ending, and a sink takes each of them in as
many calls as it likes. A call that fails ends its buffer and nothing else: the ending is written
after a broken line, and the next record after a broken ending. So the bytes taken are the buffers
one after the other, and what is missing of them is the unsent rest of a buffer
(`records_delivered`).
-/

namespace TwoWire.Log

namespace Sink

/-- A call made after the first sink and before the second one fails. -/
def FailsBetween (sink after : Sink) (call : Nat) : Prop :=
  sink.calls ≤ call ∧ call < after.calls ∧ sink.behaviour call = .refuse

/-- The sink after the buffers were written to it, whole or not. -/
def writeEach (sink : Sink) (buffers : List (List UInt8)) : Sink :=
  buffers.foldl (fun sink buffer => (sink.writeAll buffer).2) sink

theorem advances_limited {chunk : Nat} (h : 0 < chunk) (failing : Option Nat) :
    (limited (some chunk) failing).Advances := by
  intro call
  show (if failing = some call then Acceptance.refuse else .upTo chunk) ≠ .upTo 0
  split
  · exact nofun
  · simpa using Nat.ne_of_gt h

/-- Only the given call fails. -/
theorem behaviour_limited_eq_refuse_iff (chunk failing : Option Nat) (call : Nat) :
    (limited chunk failing).behaviour call = .refuse ↔ failing = some call := by
  show (if failing = some call then Acceptance.refuse else _) = .refuse ↔ _
  split
  · next h => simp [h]
  · next h => cases chunk <;> simp [h]

/-! ## One buffer -/

theorem calls_le_writeAll (sink : Sink) (bytes : List UInt8) :
    sink.calls ≤ (sink.writeAll bytes).2.calls := by
  fun_induction writeAll sink bytes with
  | case1 => exact Nat.le_refl _
  | case2 => exact Nat.le_succ _
  | case3 => exact Nat.le_succ _
  | case4 sink b rest limit hcall ih => exact Nat.le_of_succ_le ih

theorem Advances.writeAll {sink : Sink} (h : sink.Advances) (bytes : List UInt8) :
    (sink.writeAll bytes).2.Advances := by
  intro call
  rw [behaviour_writeAll]
  exact h call

/-- How a buffer is written: as a whole, or up to a call that fails. -/
inductive Wrote (sink : Sink) (bytes : List UInt8) (after : Sink) : Prop
  /-- No call fails and all is taken. -/
  | whole (htaken : after.taken = sink.taken ++ bytes)
    (hnone : ∀ call, ¬sink.FailsBetween after call)
  /-- The last call fails, and the rest stays unsent. -/
  | broken (sent unsent : List UInt8) (hbytes : bytes = sent ++ unsent) (hunsent : unsent ≠ [])
    (htaken : after.taken = sink.taken ++ sent)
    (hlast : ∃ last, after.calls = last + 1 ∧ sink.FailsBetween after last)

theorem Advances.wrote_writeAll {sink : Sink} (h : sink.Advances) (bytes : List UInt8) :
    sink.Wrote bytes (sink.writeAll bytes).2 := by
  fun_induction Sink.writeAll sink bytes with
  | case1 sink =>
    refine .whole (List.append_nil _).symm ?_
    rintro call ⟨hfrom, hto, -⟩
    exact absurd hto (Nat.not_lt_of_le hfrom)
  | case2 sink b rest hrefuse =>
    exact .broken [] (b :: rest) rfl (List.cons_ne_nil b rest) (List.append_nil _).symm
      ⟨sink.calls, rfl, Nat.le_refl _, Nat.lt_succ_self _, hrefuse⟩
  | case3 sink b rest hstall => exact absurd hstall (h sink.calls)
  | case4 sink b rest limit hcall ih =>
    set next := sink.take (limit + 1) (b :: rest) with hnext
    have hshown : next.taken = sink.taken ++ (b :: rest).take (limit + 1) := by
      simp [hnext, taken, take]
    -- the call just made does not fail, so that the others decide
    have hfails : ∀ after call, sink.FailsBetween after call ↔ next.FailsBetween after call := by
      intro after call
      constructor
      · rintro ⟨hfrom, hto, hrefuse⟩
        refine ⟨Nat.lt_of_le_of_ne hfrom ?_, hto, hrefuse⟩
        rintro rfl
        rw [hcall] at hrefuse
        cases hrefuse
      · rintro ⟨hfrom, hto, hrefuse⟩
        exact ⟨Nat.le_of_succ_le hfrom, hto, hrefuse⟩
    cases ih h with
    | whole htaken hnone =>
      refine .whole ?_ fun call => (hfails _ call).not.mpr (hnone call)
      rw [htaken, hshown, List.append_assoc, List.take_append_drop]
    | broken sent unsent hbytes hunsent htaken hlast =>
      obtain ⟨last, hcalls, hfail⟩ := hlast
      refine .broken ((b :: rest).take (limit + 1) ++ sent) unsent ?_ hunsent ?_
        ⟨last, hcalls, (hfails _ last).mpr hfail⟩
      · rw [List.append_assoc, ← hbytes, List.take_append_drop]
      · rw [htaken, hshown, List.append_assoc]

/-! ## Buffer after buffer -/

theorem writeEach_cons (sink : Sink) (buffer : List UInt8) (buffers : List (List UInt8)) :
    sink.writeEach (buffer :: buffers) = (sink.writeAll buffer).2.writeEach buffers := rfl

theorem writeEach_append (sink : Sink) (front back : List (List UInt8)) :
    sink.writeEach (front ++ back) = (sink.writeEach front).writeEach back :=
  List.foldl_append

theorem Advances.writeEach {sink : Sink} (h : sink.Advances) (buffers : List (List UInt8)) :
    (sink.writeEach buffers).Advances := by
  induction buffers generalizing sink with
  | nil => exact h
  | cons buffer buffers ih => exact ih (h.writeAll buffer)

theorem calls_le_writeEach (sink : Sink) (buffers : List (List UInt8)) :
    sink.calls ≤ (sink.writeEach buffers).calls := by
  induction buffers generalizing sink with
  | nil => exact Nat.le_refl _
  | cons buffer buffers ih => exact (sink.calls_le_writeAll buffer).trans (ih _)

/-- A call that fails is made for the first buffer or for a later one. -/
theorem failsBetween_writeEach_cons_iff (sink : Sink) (buffer : List UInt8)
    (buffers : List (List UInt8)) (call : Nat) :
    sink.FailsBetween (sink.writeEach (buffer :: buffers)) call ↔
      sink.FailsBetween (sink.writeAll buffer).2 call
        ∨ (sink.writeAll buffer).2.FailsBetween (sink.writeEach (buffer :: buffers)) call := by
  have hfirst := sink.calls_le_writeAll buffer
  have hlater := (sink.writeAll buffer).2.calls_le_writeEach buffers
  rw [← writeEach_cons] at hlater
  unfold FailsBetween
  rw [behaviour_writeAll]
  grind

/-- Without a call that fails, all buffers are taken. -/
theorem Advances.taken_writeEach {sink : Sink} (h : sink.Advances) {buffers : List (List UInt8)}
    (hnone : ∀ call, ¬sink.FailsBetween (sink.writeEach buffers) call) :
    (sink.writeEach buffers).taken = sink.taken ++ buffers.flatten := by
  induction buffers generalizing sink with
  | nil => exact (List.append_nil _).symm
  | cons buffer buffers ih =>
    have hparts := fun call =>
      not_or.mp ((failsBetween_writeEach_cons_iff sink buffer buffers call).not.mp (hnone call))
    cases h.wrote_writeAll buffer with
    | whole htaken _ =>
      rw [writeEach_cons, ih (h.writeAll buffer) fun call => (hparts call).2, htaken,
        List.flatten_cons, List.append_assoc]
    | broken _ _ _ _ _ hlast =>
      obtain ⟨last, -, hfail⟩ := hlast
      exact absurd hfail (hparts last).1

/-- If a single call fails, the unsent rest of its buffer is all that is missing. -/
theorem Advances.exists_unsent {sink : Sink} (h : sink.Advances) {buffers : List (List UInt8)}
    {call : Nat} (hone : ∀ other, sink.FailsBetween (sink.writeEach buffers) other ↔ other = call) :
    ∃ front buffer back sent unsent, buffers = front ++ buffer :: back
      ∧ buffer = sent ++ unsent ∧ unsent ≠ []
      ∧ (sink.writeEach front).FailsBetween (sink.writeEach (front ++ [buffer])) call
      ∧ (sink.writeEach buffers).taken = sink.taken ++ front.flatten ++ sent ++ back.flatten := by
  induction buffers generalizing sink with
  | nil =>
    obtain ⟨hfrom, hto, -⟩ := (hone call).mpr rfl
    exact absurd hto (Nat.not_lt_of_le hfrom)
  | cons buffer buffers ih =>
    have hparts := fun other =>
      (failsBetween_writeEach_cons_iff sink buffer buffers other).symm.trans (hone other)
    have hnext := h.writeAll buffer
    cases h.wrote_writeAll buffer with
    | whole htaken hnone =>
      have hlater : ∀ other, (sink.writeAll buffer).2.FailsBetween
          (sink.writeEach (buffer :: buffers)) other ↔ other = call := by
        simpa [hnone] using hparts
      obtain ⟨front, lost, back, sent, unsent, rfl, hlost, hunsent, hcall, hrest⟩ :=
        ih hnext hlater
      refine ⟨buffer :: front, lost, back, sent, unsent, rfl, hlost, hunsent, hcall, ?_⟩
      rw [writeEach_cons, hrest, htaken, List.flatten_cons, ← List.append_assoc]
    | broken sent unsent hbytes hunsent htaken hlast =>
      obtain ⟨last, hcalls, hfail⟩ := hlast
      obtain rfl : last = call := (hparts last).mp (.inl hfail)
      have hothers : ∀ other,
          ¬(sink.writeAll buffer).2.FailsBetween (sink.writeEach (buffer :: buffers)) other := by
        intro other hother
        obtain rfl : other = last := (hparts other).mp (.inr hother)
        have hfrom := hother.1
        omega
      refine ⟨[], buffer, buffers, sent, unsent, rfl, hbytes, hunsent, hfail, ?_⟩
      rw [writeEach_cons, hnext.taken_writeEach hothers, htaken, List.flatten_nil, List.append_nil]

end Sink

/-! ## Records -/

namespace Console

/-- Takes records in order. -/
def recordAll (records : List (Level × List String)) (console : Console) : Except Fault Console :=
  records.foldlM (fun console record => Logger.record record.1 record.2 console) console

/-- The line of each record up to the level, and its ending. -/
def buffers (console : Console) (records : List (Level × List String)) : List (List UInt8) :=
  (records.filter fun record => record.1.rank ≤ console.maxLevel.rank).flatMap
    fun record => [Line.encode (Line.ofRecord record.1 record.2), Line.ending]

/-- A line is written as two buffers. -/
theorem write_eq {console : Console} (h : console.sink.Advances) (line : List UInt8) :
    console.write line
      = .ok { console with sink := console.sink.writeEach [line, Line.ending] } := by
  have hline := h.writeAll_ne_stalled line
  have hending := (h.writeAll line).writeAll_ne_stalled Line.ending
  unfold write
  split
  · next sink heq => exact absurd (congrArg Prod.fst heq) hline
  · next written sink _ heq =>
    rw [heq] at hending
    split
    · next sink' heq' => exact absurd (congrArg Prod.fst heq') hending
    · next written' sink' _ heq' =>
      rw [Sink.writeEach_cons, Sink.writeEach_cons, heq, heq']
      rfl

/-- One record writes its buffers, none if it is above the level. -/
theorem record_eq {console : Console} (h : console.sink.Advances) (level : Level)
    (pieces : List String) :
    Logger.record level pieces console = .ok { console with
      sink := console.sink.writeEach (console.buffers [(level, pieces)]) } := by
  by_cases hlevel : level.rank ≤ console.maxLevel.rank
  · have hbuffers : console.buffers [(level, pieces)]
        = [Line.encode (Line.ofRecord level pieces), Line.ending] := by
      simp [buffers, hlevel]
    rw [hbuffers, ← write_eq h]
    exact if_pos hlevel
  · have hbuffers : console.buffers [(level, pieces)] = [] := by simp [buffers, hlevel]
    rw [hbuffers]
    exact if_neg hlevel

/-- Records write their buffers one after the other. -/
theorem recordAll_eq {console : Console} (h : console.sink.Advances)
    (records : List (Level × List String)) :
    console.recordAll records
      = .ok { console with sink := console.sink.writeEach (console.buffers records) } := by
  induction records generalizing console with
  | nil => rfl
  | cons record records ih =>
    have hsplit : console.buffers (record :: records)
        = console.buffers [record] ++ console.buffers records := by
      unfold buffers
      rw [← List.flatMap_append, ← List.filter_append, List.singleton_append]
    have hnext : (console.sink.writeEach (console.buffers [record])).Advances := h.writeEach _
    rw [recordAll, List.foldlM_cons, record_eq h record.1 record.2, hsplit, Sink.writeEach_append]
    exact ih hnext

end Console

namespace Line

/-- What is on a record's line: whole characters behind the label, and all if they fit. -/
theorem encode_ofRecord (level : Level) (pieces : List String) :
    (encode (ofRecord level pieces)).toByteArray.IsValidUTF8
      ∧ encode ("[" ++ level.tag ++ "] ").toList <+: encode (ofRecord level pieces)
      ∧ (encode (ofRecord level pieces)).length ≤ capacity
      ∧ ((encode (fullText level pieces)).length ≤ capacity →
        encode (ofRecord level pieces) = encode (fullText level pieces)) := by
  refine ⟨.intro (ofRecord level pieces) rfl, ?_, ?_, fun hfits => ?_⟩
  · obtain ⟨message, hmessage⟩ := label_isPrefix_ofRecord level pieces
    rw [← hmessage, encode, encode, List.flatMap_append]
    exact List.prefix_append _ _
  · rw [length_encode]
    exact size_ofRecord_le level pieces
  · rw [length_encode] at hfits
    rw [ofRecord_eq_of_fits hfits]

end Line

/--
**Records are delivered as lines, and a call that fails costs no more than its buffer.**

Whatever records a console is given and in whatever chunks its sink takes bytes, at least one a
call, it writes the line and the ending of every record up to its level, in order, and nothing for
the others. If no call fails, the sink has taken just these buffers. If a single call fails, the
buffer that the call was made for has lost the rest that was not sent yet, and all before and
behind it is there. Each line is valid UTF-8, starts with the label, has at most 128 bytes, and is
the whole record if that fits.
-/
theorem records_delivered {console : Console} (h : console.sink.Advances)
    (records : List (Level × List String)) :
    let buffers := console.buffers records
    let after := console.sink.writeEach buffers
    console.recordAll records = .ok { console with sink := after }
      ∧ (∀ level pieces, console.maxLevel.rank < level.rank →
          Logger.record level pieces console = .ok console)
      ∧ ((∀ call, ¬console.sink.FailsBetween after call) →
          after.taken = console.sink.taken ++ buffers.flatten)
      ∧ (∀ call, (∀ other, console.sink.FailsBetween after other ↔ other = call) →
          ∃ front buffer back sent unsent, buffers = front ++ buffer :: back
            ∧ buffer = sent ++ unsent ∧ unsent ≠ []
            ∧ (console.sink.writeEach front).FailsBetween
                (console.sink.writeEach (front ++ [buffer])) call
            ∧ after.taken = console.sink.taken ++ front.flatten ++ sent ++ back.flatten)
      ∧ ∀ level pieces,
          let line := Line.encode (Line.ofRecord level pieces)
          line.toByteArray.IsValidUTF8
            ∧ Line.encode ("[" ++ level.tag ++ "] ").toList <+: line
            ∧ line.length ≤ Line.capacity
            ∧ ((Line.encode (Line.fullText level pieces)).length ≤ Line.capacity →
                line = Line.encode (Line.fullText level pieces)) := by
  intro buffers after
  refine ⟨Console.recordAll_eq h records, fun level pieces habove => ?_, h.taken_writeEach,
    fun call hone => h.exists_unsent hone, Line.encode_ofRecord⟩
  exact if_neg (Nat.not_le_of_lt habove)

/-- Three bytes a call: the sixth call fails, and the second line is cut behind its third byte. -/
theorem second_line_is_cut :
    let records := [(Level.info, ["ab"]), (.debug, ["dropped"]), (.error, ["c"])]
    let console : Console := ⟨.info, .limited (some 3) none⟩
    let failing : Console := ⟨.info, .limited (some 3) (some 5)⟩
    (console.sink.writeEach (console.buffers records)).taken
        = Line.encode "[INFO] ab\r\n[ERROR] c\r\n".toList
      ∧ (failing.sink.writeEach (failing.buffers records)).taken
        = Line.encode "[INFO] ab\r\n[ER\r\n".toList
      ∧ ∃ front buffer back sent unsent, failing.buffers records = front ++ buffer :: back
        ∧ buffer = sent ++ unsent ∧ unsent ≠ []
        ∧ (failing.sink.writeEach front).FailsBetween
            (failing.sink.writeEach (front ++ [buffer])) 5
        ∧ (failing.sink.writeEach (failing.buffers records)).taken
          = failing.sink.taken ++ front.flatten ++ sent ++ back.flatten := by
  intro records console failing
  have hadvances : console.sink.Advances := Sink.advances_limited (by decide) none
  have hfailing : failing.sink.Advances := Sink.advances_limited (by decide) (some 5)
  have hnone : ∀ call, ¬console.sink.FailsBetween
      (console.sink.writeEach (console.buffers records)) call := by
    rintro call ⟨-, -, hrefuse⟩
    exact nomatch (Sink.behaviour_limited_eq_refuse_iff (some 3) none call).mp hrefuse
  have hone : ∀ other, failing.sink.FailsBetween
      (failing.sink.writeEach (failing.buffers records)) other ↔ other = 5 := by
    intro other
    have hcalls : (failing.sink.writeEach (failing.buffers records)).calls = 7 := by cbv
    have hrefuse : failing.sink.behaviour other = .refuse ↔ some 5 = some other :=
      Sink.behaviour_limited_eq_refuse_iff (some 3) (some 5) other
    rw [Sink.FailsBetween, hrefuse, hcalls, Option.some_inj]
    exact ⟨fun h => h.2.2.symm, fun h => ⟨Nat.zero_le _, by omega, h.symm⟩⟩
  obtain ⟨-, -, htaken, -, -⟩ := records_delivered hadvances records
  obtain ⟨-, -, -, hlost, -⟩ := records_delivered hfailing records
  refine ⟨?_, by cbv, hlost 5 hone⟩
  rw [htaken hnone]
  cbv

end TwoWire.Log
