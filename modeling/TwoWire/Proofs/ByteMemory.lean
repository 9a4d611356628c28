import Mathlib
import TwoWire.Proofs.Handles
import TwoWire.Window

/-!
# Register windows are byte memory

Accesses of different widths overlap, so what a read gives may have been written by several earlier
accesses and in part by none. It is told byte by byte: `Window.latest` is the byte that the last
write over an offset has put there, and a read gives the number that these bytes make up
(`window_is_byte_memory`).

The effect of one access is `Access.applied`. Only a write has one, on the bytes that it covers
(`Window.Overwritten`); sequences of accesses follow from it by induction.
-/

namespace TwoWire

/-! ## Bytes of a number -/

theorem littleEndian_lt (bs : List UInt8) : littleEndian bs < 256 ^ bs.length := by
  induction bs with
  | nil => exact Nat.one_pos
  | cons b rest ih =>
    have hb : b.toNat < 256 := UInt8.toNat_lt b
    rw [littleEndian, List.length_cons, Nat.pow_succ]
    omega

/-- A number is the sum of its bytes, each by the weight of its place. -/
theorem littleEndian_eq_sum (bs : List UInt8) :
    littleEndian bs
      = ∑ place ∈ Finset.range bs.length, 256 ^ place * (bs.getD place 0).toNat := by
  induction bs with
  | nil => rfl
  | cons b rest ih =>
    have hrest : ∀ place, 256 ^ (place + 1) * ((b :: rest).getD (place + 1) 0).toNat
        = 256 * (256 ^ place * (rest.getD place 0).toNat) := by
      intro place
      rw [List.getD_cons_succ, Nat.pow_succ', Nat.mul_assoc]
    rw [littleEndian, ih, List.length_cons, Finset.sum_range_succ', Finset.mul_sum,
      Finset.sum_congr rfl fun place _ => hrest place, Nat.add_comm]
    simp

theorem getElem?_littleEndianBytes {count place : Nat} (n : Nat) (h : place < count) :
    (littleEndianBytes count n)[place]? = some (UInt8.ofNat (n / 256 ^ place)) := by
  induction count generalizing n place with
  | zero => omega
  | succ count ih =>
    cases place with
    | zero => simp [littleEndianBytes]
    | succ place =>
      rw [littleEndianBytes, List.getElem?_cons_succ, ih _ (Nat.lt_of_succ_lt_succ h),
        Nat.div_div_eq_div_mul, ← Nat.pow_succ']

namespace Width

/-- The byte of a value at a place in memory, the lowest byte at place zero. -/
def byteAt (width : Width) (value : width.Value) (place : Nat) : UInt8 :=
  UInt8.ofNat (width.toNat value / 256 ^ place)

theorem toNat_truncate {width : Width} {n : Nat} (h : n < 256 ^ width.size) :
    width.toNat (width.truncate n) = n := by
  cases width with
  | byte => exact UInt8.toNat_ofNat_of_lt' h
  | half => exact UInt16.toNat_ofNat_of_lt' h
  | word => exact UInt32.toNat_ofNat_of_lt' h

end Width

/-! ## One access -/

namespace Window

variable {w : Window} {width : Width} {offset : Nat}

/-- The number read is made up of the bytes from the offset on. -/
theorem toNat_get (h : w.Fits width offset) :
    width.toNat (w.get width offset)
      = ∑ place ∈ Finset.range width.size,
        256 ^ place * (w.bytes.getD (offset + place) 0).toNat := by
  have hlen : ((w.bytes.drop offset).take width.size).length = width.size := by
    rw [List.length_take, List.length_drop]
    have hrange := h.2
    omega
  have hlt := littleEndian_lt ((w.bytes.drop offset).take width.size)
  rw [hlen] at hlt
  rw [get, Width.toNat_truncate hlt, littleEndian_eq_sum, hlen]
  refine Finset.sum_congr rfl fun place hplace => ?_
  rw [List.getD_eq_getElem?_getD, List.getElem?_take_of_lt (Finset.mem_range.mp hplace),
    List.getElem?_drop, ← List.getD_eq_getElem?_getD]

/-- Two windows cover the same addresses. -/
structure SameExtent (before after : Window) : Prop where
  base : after.base = before.base
  length : after.bytes.length = before.bytes.length

theorem SameExtent.refl (w : Window) : w.SameExtent w := ⟨rfl, rfl⟩

theorem SameExtent.trans {before mid after : Window} (h : before.SameExtent mid)
    (h' : mid.SameExtent after) : before.SameExtent after :=
  ⟨h'.base.trans h.base, h'.length.trans h.length⟩

/-- A value has been written over the bytes from an offset on, and nothing else has changed. -/
structure Overwritten (before : Window) (width : Width) (offset : Nat) (value : width.Value)
    (after : Window) : Prop where
  extent : before.SameExtent after
  inside : ∀ place < width.size,
    after.bytes[offset + place]? = some (width.byteAt value place)
  outside : ∀ other, other < offset ∨ offset + width.size ≤ other →
    after.bytes[other]? = before.bytes[other]?

theorem overwritten_set (h : w.Fits width offset) (value : width.Value) :
    w.Overwritten width offset value (w.set width offset value) := by
  have hrange := h.2
  have hfront : (w.bytes.take offset).length = offset := by
    rw [List.length_take]
    omega
  have hstored : (w.bytes.take offset ++ littleEndianBytes width.size (width.toNat value)).length
      = offset + width.size := by
    rw [List.length_append, hfront, length_littleEndianBytes]
  -- the bytes are those in front, those of the value and those behind
  refine ⟨⟨rfl, ?_⟩, fun place hplace => ?_, fun other hother => ?_⟩
  · rw [set, List.length_append, hstored, List.length_drop]
    omega
  · rw [set, List.getElem?_append_left (by omega), List.getElem?_append_right (by omega), hfront,
      Nat.add_sub_cancel_left, getElem?_littleEndianBytes _ hplace]
    rfl
  · rcases hother with hbelow | habove
    · rw [set, List.getElem?_append_left (by omega), List.getElem?_append_left (by omega),
        List.getElem?_take_of_lt hbelow]
    · rw [set, List.getElem?_append_right (by omega), hstored, List.getElem?_drop,
        Nat.add_sub_cancel' habove]

end Window

namespace Access

variable {w : Window} {access : Access}

/-- The access is aligned and in range. -/
def Fits (w : Window) : Access → Prop
  | read width offset | write width offset _ => w.Fits width offset

instance (w : Window) : (access : Access) → Decidable (access.Fits w)
  | read width offset | write width offset _ => inferInstanceAs (Decidable (w.Fits width offset))

/-- What the access gives on a window. -/
def answer (w : Window) : Access → Answer
  | read width offset => some ⟨width, w.get width offset⟩
  | write .. => none

/-- The window after the access. -/
def applied (w : Window) : Access → Window
  | read .. => w
  | write width offset value => w.set width offset value

/-- The byte that the access writes at an offset, if it writes one there. -/
def written? : Access → Nat → Option UInt8
  | read .., _ => none
  | write width start value, offset =>
    if start ≤ offset ∧ offset < start + width.size then
      some (width.byteAt value (offset - start))
    else none

/-- An access that fits is made. -/
theorem perform_of_fits (h : access.Fits w) (n : Nat) :
    ∃ events, (access.perform : Proc Window Answer) w (n + 1)
      = ⟨events, .ok (access.answer w), access.applied w, n⟩ := by
  cases access with
  | read width offset =>
    have hread : RegisterBlock.read width offset w = .ok (w.get width offset, w) := if_pos h
    refine ⟨[.read width offset (w.get width offset)], ?_⟩
    rw [perform, Proc.map_apply, RegisterBlock.load, hread]
    rfl
  | write width offset value =>
    have hwrite : RegisterBlock.write width offset value w = .ok (w.set width offset value) :=
      if_pos h
    refine ⟨[.write width offset value], ?_⟩
    rw [perform, Proc.map_apply, RegisterBlock.store, hwrite]
    rfl

theorem Fits.of_sameExtent {w' : Window} (h : access.Fits w) (hextent : w.SameExtent w') :
    access.Fits w' := by
  cases access with
  | read | write => simpa only [Fits, Window.Fits, hextent.base, hextent.length] using h

theorem sameExtent_applied (h : access.Fits w) : w.SameExtent (access.applied w) := by
  cases access with
  | read => exact .refl w
  | write width offset value => exact (Window.overwritten_set h value).extent

/-- After an access there is at each offset what it has written there, or else what was there. -/
theorem getD_applied (h : access.Fits w) (offset : Nat) :
    (access.applied w).bytes.getD offset 0
      = (access.written? offset).getD (w.bytes.getD offset 0) := by
  cases access with
  | read => rfl
  | write width start value =>
    have hset := Window.overwritten_set h value
    by_cases hcovered : start ≤ offset ∧ offset < start + width.size
    · obtain ⟨place, rfl⟩ := Nat.exists_eq_add_of_le hcovered.1
      rw [applied, List.getD_eq_getElem?_getD, hset.inside place (by omega), written?,
        if_pos hcovered, Nat.add_sub_cancel_left]
      rfl
    · rw [applied, List.getD_eq_getElem?_getD, hset.outside offset (by omega), written?,
        if_neg hcovered, ← List.getD_eq_getElem?_getD]
      rfl

end Access

/-! ## Accesses one after another -/

namespace Window

variable {w : Window} {accesses : List Access}

/-- The window after some accesses. -/
def after (w : Window) (accesses : List Access) : Window := accesses.foldl Access.applied w

/-- What some accesses give, each on the window that the ones before it have left. -/
def answers (w : Window) : List Access → List Access.Answer
  | [] => []
  | access :: rest => access.answer w :: answers (access.applied w) rest

/--
The byte that the last write over an offset has put there, or else the one that the window held
before the accesses.
-/
def latest (w : Window) (accesses : List Access) (offset : Nat) : UInt8 :=
  (accesses.reverse.findSome? (·.written? offset)).getD (w.bytes.getD offset 0)

theorem length_answers (w : Window) (accesses : List Access) :
    (w.answers accesses).length = accesses.length := by
  induction accesses generalizing w with
  | nil => rfl
  | cons access rest ih => exact congrArg Nat.succ (ih (access.applied w))

theorem getElem?_answers (w : Window) {accesses : List Access} {i : Nat} {access : Access}
    (h : accesses[i]? = some access) :
    (w.answers accesses)[i]? = some (access.answer (w.after (accesses.take i))) := by
  induction accesses generalizing w i with
  | nil => simp at h
  | cons first rest ih =>
    cases i with
    | zero =>
      obtain rfl : first = access := Option.some.inj h
      rfl
    | succ i => exact ih (first.applied w) h

theorem after_concat (w : Window) (accesses : List Access) (access : Access) :
    w.after (accesses ++ [access]) = access.applied (w.after accesses) :=
  List.foldl_concat Access.applied w access accesses

theorem latest_concat (w : Window) (accesses : List Access) (access : Access) (offset : Nat) :
    w.latest (accesses ++ [access]) offset
      = (access.written? offset).getD (w.latest accesses offset) := by
  rw [latest, latest, List.reverse_concat, List.findSome?_cons]
  cases access.written? offset <;> rfl

/-- Accesses keep the extent of the window, and so what fits in it. -/
theorem sameExtent_after (h : ∀ access ∈ accesses, access.Fits w) :
    w.SameExtent (w.after accesses) := by
  induction accesses using List.reverseRecOn with
  | nil => exact .refl w
  | append_singleton accesses access ih =>
    obtain ⟨hearlier, hlast⟩ := List.forall_mem_append.mp h
    have hextent := ih hearlier
    have hfits := (hlast access List.mem_cons_self).of_sameExtent hextent
    rw [after_concat]
    exact hextent.trans (Access.sameExtent_applied hfits)

/-- **After some accesses there is at each offset the byte written there last.** -/
theorem getD_after (h : ∀ access ∈ accesses, access.Fits w) (offset : Nat) :
    (w.after accesses).bytes.getD offset 0 = w.latest accesses offset := by
  induction accesses using List.reverseRecOn with
  | nil => rfl
  | append_singleton accesses access ih =>
    obtain ⟨hearlier, hlast⟩ := List.forall_mem_append.mp h
    have hfits := (hlast access List.mem_cons_self).of_sameExtent (sameExtent_after hearlier)
    rw [after_concat, Access.getD_applied hfits, ih hearlier, latest_concat]

theorem getElem?_after (h : ∀ access ∈ accesses, access.Fits w) {offset : Nat}
    (hoffset : offset < w.bytes.length) :
    (w.after accesses).bytes[offset]? = some (w.latest accesses offset) := by
  have hin : offset < (w.after accesses).bytes.length := by
    rwa [(sameExtent_after h).length]
  rw [List.getElem?_eq_getElem hin, ← getD_after h offset, List.getD_eq_getElem _ 0 hin]

/-- What a read gives after some accesses: the number that the bytes written last make up. -/
theorem toNat_get_after (h : ∀ access ∈ accesses, access.Fits w) {width : Width} {offset : Nat}
    (hfits : w.Fits width offset) :
    width.toNat ((w.after accesses).get width offset)
      = ∑ place ∈ Finset.range width.size,
        256 ^ place * (w.latest accesses (offset + place)).toNat := by
  have hread : (Access.read width offset).Fits w := hfits
  rw [toNat_get (hread.of_sameExtent (sameExtent_after h))]
  exact Finset.sum_congr rfl fun place _ => by rw [getD_after h]

end Window

namespace Access

/-- The first of some accesses is made, and the others then on the window that it has left. -/
theorem performAll_cons_of_fits {w : Window} {access : Access} (h : access.Fits w) (depth : Nat)
    (rest : List (Nat × Access)) (n : Nat) :
    ∃ events, performAll ((depth, access) :: rest) w (n + 1)
      = ⟨events, (performAll rest (access.applied w) n).outcome.map (access.answer w :: ·),
        (performAll rest (access.applied w) n).state,
        (performAll rest (access.applied w) n).left⟩ := by
  obtain ⟨events, hperform⟩ := perform_of_fits h n
  have hfirst : ((access.perform : Proc Window Answer) w (n + 1)).outcome
      = .ok (access.answer w) := by rw [hperform]
  refine ⟨events ++ (performAll rest (access.applied w) n).events, ?_⟩
  rw [performAll, through_perform, Proc.bind_of_ok hfirst, hperform, bind_pure_comp,
    Proc.map_apply]

/-- Accesses that fit are all made, each on the window that the ones before it have left. -/
theorem performAll_of_fits {w : Window} {script : List (Nat × Access)}
    (h : ∀ access ∈ script.map Prod.snd, access.Fits w) {n : Nat} (hn : script.length ≤ n) :
    (performAll script w n).outcome = .ok (w.answers (script.map Prod.snd))
      ∧ (performAll script w n).state = w.after (script.map Prod.snd) := by
  induction script generalizing w n with
  | nil => exact ⟨rfl, rfl⟩
  | cons step rest ih =>
    obtain ⟨depth, access⟩ := step
    obtain ⟨haccess, hrest⟩ := List.forall_mem_cons.mp h
    obtain ⟨n, rfl⟩ : ∃ m, n = m + 1 :=
      Nat.exists_eq_succ_of_ne_zero (Nat.ne_of_gt (Nat.zero_lt_of_lt hn))
    have hleft : ∀ other ∈ rest.map Prod.snd, other.Fits (access.applied w) :=
      fun other hother => (hrest other hother).of_sameExtent (sameExtent_applied haccess)
    obtain ⟨houtcome, hstate⟩ := ih hleft (Nat.le_of_succ_le_succ hn)
    obtain ⟨events, hrun⟩ := performAll_cons_of_fits haccess depth rest n
    rw [hrun, houtcome, hstate]
    exact ⟨rfl, rfl⟩

/-- The same behind handles. -/
theorem performAll_behind_of_fits {depth : Nat} (handles : Handles Window depth)
    {script : List (Nat × Access)}
    (h : ∀ access ∈ script.map Prod.snd, access.Fits handles.block) {n : Nat}
    (hn : script.length ≤ n) :
    (performAll script handles n).outcome = .ok (handles.block.answers (script.map Prod.snd))
      ∧ (performAll script handles n).state.block
        = handles.block.after (script.map Prod.snd) := by
  have hlead : Handles.LeadTo handles.block handles := rfl
  obtain ⟨-, houtcome, hstate, -⟩ := alike_performAll depth script hlead n
  obtain ⟨hanswers, hafter⟩ := performAll_of_fits h hn
  exact ⟨houtcome.trans hanswers, hstate.trans hafter⟩

end Access

/--
**A register window is byte memory at every width.**

Aligned accesses in range, of any widths, are made one after another on a window behind any number
of handles; each of them may go through any number of handles more. All of them are answered. A read
gives the number that, lowest byte first, the bytes written last at its addresses make up, whatever
the widths of those writes were; where nothing was written, they are the bytes that the window
began with. A write changes the bytes that it covers into those of its value, and nothing else; a
read changes nothing.
-/
theorem window_is_byte_memory {depth : Nat} (handles : Handles Window depth)
    {script : List (Nat × Access)} (hfits : ∀ step ∈ script, step.2.Fits handles.block)
    {allowance : Nat} (hallowance : script.length ≤ allowance) :
    let window := handles.block
    let accesses := script.map Prod.snd
    let reached := fun i => (Access.performAll (script.take i) handles i).state.block
    ∃ answers, (Access.performAll script handles allowance).outcome = .ok answers
      ∧ answers.length = script.length
      ∧ (Access.performAll script handles allowance).state.block = reached script.length
      ∧ (∀ i width offset, accesses[i]? = some (.read width offset) →
        (∃ value, answers[i]? = some (some ⟨width, value⟩)
          ∧ width.toNat value = ∑ place ∈ Finset.range width.size,
            256 ^ place * (window.latest (accesses.take i) (offset + place)).toNat)
        ∧ reached (i + 1) = reached i)
      ∧ (∀ i width offset value, accesses[i]? = some (.write width offset value) →
        answers[i]? = some none
          ∧ (reached i).Overwritten width offset value (reached (i + 1)))
      ∧ ∀ i, window.SameExtent (reached i)
        ∧ ∀ offset < window.bytes.length,
          (reached i).bytes[offset]? = some (window.latest (accesses.take i) offset) := by
  intro window accesses reached
  have hall : ∀ access ∈ accesses, access.Fits window := by
    intro access haccess
    obtain ⟨step, hstep, rfl⟩ := List.mem_map.mp haccess
    exact hfits step hstep
  have hstart : ∀ i, ∀ access ∈ accesses.take i, access.Fits window :=
    fun i access haccess => hall access (List.mem_of_mem_take haccess)
  -- what the first accesses leave by themselves is what they leave on the way
  have hreached : ∀ i, reached i = window.after (accesses.take i) := by
    intro i
    have htake : (script.take i).map Prod.snd = accesses.take i := List.map_take
    have htaken : ∀ access ∈ (script.take i).map Prod.snd, access.Fits window := by
      rw [htake]
      exact hstart i
    obtain ⟨-, hstate⟩ :=
      Access.performAll_behind_of_fits handles htaken (List.length_take_le i script)
    rw [← htake]
    exact hstate
  have hnext : ∀ {i access}, accesses[i]? = some access →
      access.Fits (reached i) ∧ reached (i + 1) = access.applied (reached i) := by
    intro i access hi
    have haccess := hall access (List.mem_of_getElem? hi)
    rw [hreached, hreached, List.take_add_one, hi]
    exact ⟨haccess.of_sameExtent (Window.sameExtent_after (hstart i)),
      Window.after_concat window (accesses.take i) access⟩
  obtain ⟨houtcome, hstate⟩ := Access.performAll_behind_of_fits handles hall hallowance
  refine ⟨window.answers accesses, houtcome, ?_, ?_,
    fun i width offset hi => ⟨⟨_, window.getElem?_answers hi, ?_⟩, (hnext hi).2⟩,
    fun i width offset value hi => ⟨window.getElem?_answers hi, ?_⟩,
    fun i => ⟨?_, fun offset hoffset => ?_⟩⟩
  · rw [Window.length_answers, List.length_map]
  · have hwhole : accesses.take script.length = accesses :=
      List.take_of_length_le (Nat.le_of_eq (List.length_map Prod.snd))
    rw [hstate, hreached, hwhole]
  · exact Window.toNat_get_after (hstart i) (hall _ (List.mem_of_getElem? hi))
  · obtain ⟨hfit, hwritten⟩ := hnext hi
    rw [hwritten]
    exact Window.overwritten_set hfit value
  · rw [hreached]
    exact Window.sameExtent_after (hstart i)
  · rw [hreached]
    exact Window.getElem?_after (hstart i) hoffset

/-- A word read after a word, a half word and a byte have been written over one another. -/
theorem word_is_pieced_together :
    let window : Window := ⟨0x1002, [0x10, 0x11, 0x12, 0x13, 0x14, 0x15, 0x16, 0x17]⟩
    let handles : Handles Window 2 := .around 2 window
    let script : List (Nat × Access) :=
      [(0, .write .word 2 0xDEADBEEF), (2, .write .half 4 0x1234), (1, .write .byte 3 0x5A),
        (3, .read .word 2), (0, .read .half 6)]
    let answers : List Access.Answer :=
      [none, none, none, some ⟨.word, 0x12345AEF⟩, some ⟨.half, 0x1716⟩]
    (∀ step ∈ script, step.2.Fits window) ∧ script.length ≤ 5
      ∧ (Access.performAll script handles 5).outcome = .ok answers
      ∧ ∃ value, answers[3]? = some (some ⟨.word, value⟩)
        ∧ value.toNat = ∑ place ∈ Finset.range 4,
          256 ^ place * (window.latest ((script.map Prod.snd).take 3) (2 + place)).toNat := by
  intro window handles script answers
  have hfits : ∀ step ∈ script, step.2.Fits handles.block := by decide
  have hlength : script.length ≤ 5 := by decide
  have houtcome : (Access.performAll script handles 5).outcome = .ok answers := by
    decide +kernel
  obtain ⟨made, hmade, -, -, hread, -⟩ := window_is_byte_memory handles hfits hlength
  obtain rfl : answers = made := Except.ok.inj (houtcome.symm.trans hmade)
  exact ⟨hfits, hlength, houtcome, (hread 3 .word 2 rfl).1⟩

end TwoWire
