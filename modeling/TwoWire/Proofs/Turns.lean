import Mathlib
import TwoWire.Proofs.Runs

/-!
# Cutting by index

Operations are cut into runs turn by turn: a turn takes an index, scans the run that begins there,
and the next turn begins where the run has ended. A turn always gets on (`lt_runAt`), so the turns
come to an end (`turns`), and they lay the list out without a gap (`Tiled`).

The stretches so cut are the maximal runs (`segments_turns`), at whatever index the first turn
begins. Checking operations and laying out their moves is therefore the same turn by turn as run by
run (`forM_checkTurn`, `layTurns_eq`); `turns_partition` puts all of this together.
-/

namespace TwoWire.Operation

/-! ## One turn -/

/-- The operation at an index is a read. -/
def readsAt (ops : List Operation) (index : Nat) : Bool := ops[index]?.any isRead

/--
Goes on over operations of one kind, up to the first of the other kind: the index that was reached,
and the bytes that they move.
-/
def scan (kind : Bool) : List Operation → Nat × Nat → Nat × Nat
  | [], reached => reached
  | op :: rest, (stop, length) =>
    if op.isRead = kind then scan kind rest (stop + 1, length + op.length) else (stop, length)

/-- Where the run that begins at an index has ended, and the bytes that it moves. -/
def runAt (ops : List Operation) (start : Nat) : Nat × Nat :=
  scan (readsAt ops start) (ops.drop start) (start, 0)

/-- The first operations, as long as they are of one kind. -/
def stretch (kind : Bool) (ops : List Operation) : List Operation :=
  ops.takeWhile (·.isRead == kind)

theorem scan_eq (kind : Bool) (ops : List Operation) (stop length : Nat) :
    scan kind ops (stop, length)
      = (stop + (stretch kind ops).length, length + totalLength (stretch kind ops)) := by
  induction ops generalizing stop length with
  | nil => rfl
  | cons op rest ih =>
    by_cases hkind : op.isRead = kind
    · have hstretch : stretch kind (op :: rest) = op :: stretch kind rest :=
        List.takeWhile_cons_of_pos (by simpa using hkind)
      rw [scan, if_pos hkind, ih, hstretch, List.length_cons, totalLength]
      congr 1 <;> omega
    · have hstretch : stretch kind (op :: rest) = [] :=
        List.takeWhile_cons_of_neg (by simpa using hkind)
      rw [scan, if_neg hkind, hstretch]
      rfl

theorem runAt_eq (ops : List Operation) (start : Nat) :
    runAt ops start = (start + (stretch (readsAt ops start) (ops.drop start)).length,
      totalLength (stretch (readsAt ops start) (ops.drop start))) := by
  rw [runAt, scan_eq, Nat.zero_add]

/-- The operations of a list from an index on, with the first of them in front. -/
theorem exists_drop_eq_cons {ops : List Operation} {index : Nat} (h : index < ops.length) :
    ∃ op rest, ops.drop index = op :: rest ∧ readsAt ops index = op.isRead := by
  refine ⟨ops[index], ops.drop (index + 1), List.drop_eq_getElem_cons h, ?_⟩
  rw [readsAt, List.getElem?_eq_getElem h]
  rfl

/-- **A turn gets on**, even over operations that move nothing. -/
theorem lt_runAt {ops : List Operation} {start : Nat} (h : start < ops.length) :
    start < (runAt ops start).1 := by
  obtain ⟨op, rest, hdrop, hkind⟩ := exists_drop_eq_cons h
  have hstretch : stretch op.isRead (op :: rest) = op :: stretch op.isRead rest :=
    List.takeWhile_cons_of_pos (by simp)
  rw [runAt_eq, hdrop, hkind, hstretch, List.length_cons]
  omega

theorem runAt_le (ops : List Operation) {start : Nat} (h : start ≤ ops.length) :
    (runAt ops start).1 ≤ ops.length := by
  have hprefix := (List.takeWhile_prefix (l := ops.drop start)
    (·.isRead == readsAt ops start)).length_le
  rw [List.length_drop] at hprefix
  rw [runAt_eq]
  show start + (stretch (readsAt ops start) (ops.drop start)).length ≤ ops.length
  unfold stretch
  omega

/-! ## All turns -/

/-- A turn: where its run begins, where it has ended, and the bytes that it moves. -/
structure Turn where
  start : Nat
  stop : Nat
  length : Nat
  deriving DecidableEq, Repr

/-- The turns from an index on, as long as there are operations left. -/
def turns (ops : List Operation) (index : Nat) : List Turn :=
  if index < ops.length then
    ⟨index, (runAt ops index).1, (runAt ops index).2⟩ :: turns ops (runAt ops index).1
  else []
termination_by ops.length - index
decreasing_by
  have hon := lt_runAt ‹index < ops.length›
  omega

/-- The operations that a turn takes. -/
def segment (ops : List Operation) (turn : Turn) : List Operation :=
  (ops.drop turn.start).take (turn.stop - turn.start)

/-- Turns that follow one another without a gap, each of which gets on. -/
inductive Tiled : Nat → List Turn → Nat → Prop
  | done (stop : Nat) : Tiled stop [] stop
  | turn {start next stop : Nat} (length : Nat) {rest : List Turn} (hon : start < next)
    (hrest : Tiled next rest stop) : Tiled start (⟨start, next, length⟩ :: rest) stop

theorem Tiled.le {start stop : Nat} {list : List Turn} (h : Tiled start list stop) :
    start ≤ stop := by
  induction h with
  | done stop => exact Nat.le_refl stop
  | turn length hon hrest ih => omega

theorem tiled_turns {ops : List Operation} {index : Nat} (h : index ≤ ops.length) :
    Tiled index (turns ops index) ops.length := by
  fun_induction turns ops index with
  | case1 index hlt ih => exact .turn _ (lt_runAt hlt) (ih (runAt_le ops h))
  | case2 index hnot =>
    obtain rfl : index = ops.length := by omega
    exact .done ops.length

/-- Each turn takes what the run at its index comes to. -/
theorem runAt_of_mem_turns {ops : List Operation} {index : Nat} {turn : Turn}
    (h : turn ∈ turns ops index) :
    turn.start < ops.length ∧ runAt ops turn.start = (turn.stop, turn.length) := by
  fun_induction turns ops index with
  | case1 index hlt ih =>
    rcases List.mem_cons.mp h with rfl | hrest
    · exact ⟨hlt, rfl⟩
    · exact ih hrest
  | case2 index hnot => cases h

/-! ## The stretches are the runs -/

/-- The first run of a list is its first stretch. -/
theorem runs_eq_cons {op : Operation} {rest ops : List Operation} (h : ops = op :: rest) :
    runs ops = stretch op.isRead ops :: runs (ops.drop (stretch op.isRead ops).length) := by
  have hsplit : stretch op.isRead ops ++ ops.dropWhile (·.isRead == op.isRead) = ops :=
    List.takeWhile_append_dropWhile
  have hkind : ∀ a ∈ stretch op.isRead ops, a.isRead = op.isRead := by
    intro a ha
    simpa using List.mem_takeWhile_imp ha
  have hne : stretch op.isRead ops ≠ [] := by
    rw [h, stretch, List.takeWhile_cons_of_pos (by simp)]
    exact List.cons_ne_nil _ _
  -- the run ends where the kind changes
  have hchange : ∀ a ∈ (stretch op.isRead ops).getLast?,
      ∀ b ∈ (ops.dropWhile (·.isRead == op.isRead)).head?, a.isRead ≠ b.isRead := by
    intro a ha b hb
    have hstop := List.head?_dropWhile_not (·.isRead == op.isRead) ops
    rw [Option.mem_def.mp hb] at hstop
    rw [hkind a (List.mem_of_mem_getLast? ha)]
    exact fun heq => absurd hstop (by simp [heq])
  have hafter : ops.drop (stretch op.isRead ops).length
      = ops.dropWhile (·.isRead == op.isRead) := by
    have hdropped := congrArg (List.drop (stretch op.isRead ops).length) hsplit
    rw [List.drop_left] at hdropped
    exact hdropped.symm
  rw [hafter]
  conv_lhs => rw [← hsplit]
  rw [runs_append hchange, runs_of_isRead_eq hne hkind]
  rfl

/-- What a turn takes is the first run of what is left, and the turns after it take the others. -/
theorem runs_drop {ops : List Operation} {index : Nat} (h : index < ops.length) (length : Nat) :
    runs (ops.drop index)
      = segment ops ⟨index, (runAt ops index).1, length⟩
        :: runs (ops.drop (runAt ops index).1) := by
  obtain ⟨op, rest, hdrop, hkind⟩ := exists_drop_eq_cons h
  have hsegment : segment ops ⟨index, (runAt ops index).1, length⟩
      = stretch op.isRead (ops.drop index) := by
    show (ops.drop index).take ((runAt ops index).1 - index) = _
    rw [runAt_eq, hkind, Nat.add_sub_cancel_left]
    exact (List.prefix_iff_eq_take.mp (List.takeWhile_prefix _)).symm
  rw [runs_eq_cons hdrop, hsegment, runAt_eq, hkind, List.drop_drop]

/-- **The turns take the maximal runs, one each.** -/
theorem segments_turns (ops : List Operation) (index : Nat) :
    (turns ops index).map (segment ops) = runs (ops.drop index) := by
  fun_induction turns ops index with
  | case1 index hlt ih => rw [List.map_cons, ih, ← runs_drop hlt]
  | case2 index hnot =>
    rw [List.drop_eq_nil_of_le (Nat.le_of_not_lt hnot)]
    rfl

/-- What a turn reports is what its operations move. -/
theorem length_eq_totalLength {ops : List Operation} {index : Nat} {turn : Turn}
    (h : turn ∈ turns ops index) : turn.length = totalLength (segment ops turn) := by
  obtain ⟨hlt, hrun⟩ := runAt_of_mem_turns h
  rw [runAt_eq] at hrun
  obtain ⟨hstop, hlength⟩ := Prod.mk.inj hrun
  rw [← hlength, segment, ← hstop, Nat.add_sub_cancel_left]
  exact congrArg totalLength (List.prefix_iff_eq_take.mp (List.takeWhile_prefix _))

theorem totalLength_eq_sum (ops : List Operation) : totalLength ops = (ops.map length).sum := by
  induction ops with
  | nil => rfl
  | cons op rest ih => rw [totalLength, ih, List.map_cons, List.sum_cons]

/-- Neighbouring runs are of opposite kinds. -/
theorem isChain_runs_opposite (ops : List Operation) :
    (runs ops).IsChain fun run next => ∀ a ∈ run, ∀ b ∈ next, a.isRead ≠ b.isRead := by
  refine (isChain_runs ops).imp_of_mem_imp fun run next hrun hnext hdiffer a ha b hb => ?_
  obtain ⟨kind, hkind⟩ := exists_isRead_of_mem_runs ops run hrun
  obtain ⟨kind', hkind'⟩ := exists_isRead_of_mem_runs ops next hnext
  obtain ⟨hlast, hfirst, hchange⟩ := hdiffer
  have hopposite : kind ≠ kind' := by
    simpa [sameKind, hkind _ (List.getLast_mem hlast), hkind' _ (List.head_mem hfirst)]
      using hchange
  rwa [hkind a ha, hkind' b hb]

theorem segment_mem_runs {ops : List Operation} {index : Nat} {turn : Turn}
    (h : turn ∈ turns ops index) : segment ops turn ∈ runs (ops.drop index) := by
  rw [← segments_turns]
  exact List.mem_map_of_mem h

/-! ## Loops over the turns -/

/-- The direction of a turn. -/
def directionAt (ops : List Operation) (turn : Turn) : Direction :=
  if readsAt ops turn.start then .read else .write

/-- Accepts a turn of reads that one count word can ask for, and any turn of writes. -/
def checkTurn (ops : List Operation) (turn : Turn) : Except TransferError Unit :=
  match directionAt ops turn with
  | .write => .ok ()
  | .read => do let _ ← Move.readCount turn.length

/-- The moves of one turn. The one that reaches the end of the operations is the last. -/
def layTurn (addr : UInt8) (ops : List Operation) (turn : Turn) : List Move :=
  let last := turn.stop == ops.length
  match directionAt ops turn with
  | .read =>
    Move.requestRead addr turn.length last
      ++ (segment ops turn).flatMap fun op => Move.receive op.length
  | .write =>
    .push (.start addr .write) :: Move.pushAll (Move.payload last (segment ops turn))

/-- The moves of turns one after another, and what the last of them is followed by. -/
def layTurns (addr : UInt8) (ops : List Operation) : List Turn → List Move
  | [] => []
  | [turn] => layTurn addr ops turn ++ Move.closing (directionAt ops turn)
  | turn :: rest => layTurn addr ops turn ++ layTurns addr ops rest

section Turn

variable {ops : List Operation} {index : Nat} {turn : Turn} (h : turn ∈ turns ops index)
include h

theorem direction_segment : Move.direction (segment ops turn) = directionAt ops turn := by
  obtain ⟨hlt, hrun⟩ := runAt_of_mem_turns h
  obtain ⟨op, rest, hdrop, hkind⟩ := exists_drop_eq_cons hlt
  have hon : turn.start < turn.stop := by simpa [hrun] using lt_runAt hlt
  obtain ⟨count, hcount⟩ := Nat.exists_eq_add_of_lt hon
  have htaken : turn.stop - turn.start = count + 1 := by omega
  rw [segment, hdrop, htaken, List.take_succ_cons, directionAt, hkind]
  cases op <;> rfl

theorem checkRun_segment : checkRun (segment ops turn) = checkTurn ops turn := by
  cases hcase : directionAt ops turn <;>
    simp only [checkRun, checkTurn, direction_segment h, hcase, length_eq_totalLength h]

theorem ofRun_segment (addr : UInt8) :
    Move.ofRun addr (turn.stop == ops.length) (segment ops turn) = layTurn addr ops turn := by
  cases hcase : directionAt ops turn <;>
    simp only [Move.ofRun, layTurn, direction_segment h, hcase, length_eq_totalLength h]

end Turn

/-- Checking turn by turn is checking run by run. -/
theorem forM_checkTurn (ops : List Operation) (index : Nat) :
    (turns ops index).forM (checkTurn ops) = (runs (ops.drop index)).forM checkRun := by
  have hall : ∀ list : List Turn,
      (∀ turn ∈ list, checkRun (segment ops turn) = checkTurn ops turn) →
        list.forM (checkTurn ops) = (list.map (segment ops)).forM checkRun := by
    intro list
    induction list with
    | nil => exact fun _ => rfl
    | cons turn rest ih =>
      intro hmem
      obtain ⟨hturn, hrest⟩ := List.forall_mem_cons.mp hmem
      rw [List.map_cons, List.forM_eq_forM, List.forM_eq_forM, List.forM_cons, List.forM_cons,
        hturn]
      exact congrArg (checkTurn ops turn >>= fun _ => ·) (ih hrest)
  rw [hall _ fun turn => checkRun_segment, segments_turns]

/-- Laying out turn by turn is laying out run by run. -/
theorem layTurns_eq (addr : UInt8) (ops : List Operation) {index : Nat} (h : index ≤ ops.length) :
    layTurns addr ops (turns ops index) = Move.ofRuns addr (runs (ops.drop index)) := by
  have hall : ∀ {start stop : Nat} {list : List Turn}, Tiled start list stop →
      stop = ops.length → (∀ turn ∈ list, turn ∈ turns ops index) →
        layTurns addr ops list = Move.ofRuns addr (list.map (segment ops)) := by
    intro start stop list htiled hstop
    induction htiled with
    | done stop => exact fun _ => rfl
    | @turn start next stop length rest hon hrest ih =>
      intro hmem
      obtain ⟨hturn, hmore⟩ := List.forall_mem_cons.mp hmem
      have hrun := ofRun_segment hturn addr
      have hlater := ih hstop hmore
      cases hrest with
      | done =>
        have hlast : (next == ops.length) = true := beq_iff_eq.mpr hstop
        rw [List.map_singleton, layTurns, ← hrun, hlast, ← direction_segment hturn]
        rfl
      | turn length' hon' hrest' =>
        have hle := hrest'.le
        have hmiddle : (next == ops.length) = false := beq_eq_false_iff_ne.mpr (by omega)
        rw [layTurns, ← hrun, hmiddle, hlater]
        · rfl
        · exact List.cons_ne_nil _ _
  rw [hall (tiled_turns h) rfl fun _ => id, segments_turns]

/-! ## The whole cutting -/

/--
**Cutting by index partitions the operations, and it ends.**

The turns from index zero on lay the operations out without a gap, from the first to the last one;
each of them gets on, and takes what the run at its index comes to. What they take are the maximal
runs, which are none of them empty and joined give the operations back. A run is of one kind, the
next one of the other, and the reported length is the sum of the lengths of its operations. From any
index inside the list a run gets on, even over operations that move nothing.

Checking operations and laying out their moves goes over these turns.
-/
theorem turns_partition (ops : List Operation) :
    let loop := turns ops 0
    Tiled 0 loop ops.length
      ∧ (∀ turn ∈ loop, runAt ops turn.start = (turn.stop, turn.length))
      ∧ loop.map (segment ops) = runs ops ∧ (loop.map (segment ops)).flatten = ops
      ∧ (∀ turn ∈ loop, segment ops turn ≠ []
        ∧ (∃ kind, ∀ op ∈ segment ops turn, op.isRead = kind)
        ∧ turn.length = ((segment ops turn).map length).sum)
      ∧ (loop.IsChain fun turn next =>
        ∀ a ∈ segment ops turn, ∀ b ∈ segment ops next, a.isRead ≠ b.isRead)
      ∧ (∀ start, start < ops.length →
        start < (runAt ops start).1 ∧ (runAt ops start).1 ≤ ops.length)
      ∧ (check ops = if ops.any isEmpty then .error .emptyBuffer else loop.forM (checkTurn ops))
      ∧ ∀ addr, Move.ofRuns addr (runs ops) = layTurns addr ops loop := by
  intro loop
  have hruns : loop.map (segment ops) = runs ops := segments_turns ops 0
  refine ⟨tiled_turns (Nat.zero_le _), fun turn hturn => (runAt_of_mem_turns hturn).2, hruns, ?_,
    fun turn hturn => ⟨?_, ?_, ?_⟩, ?_, fun start hstart => ⟨lt_runAt hstart, ?_⟩, ?_,
    fun addr => ?_⟩
  · rw [hruns, flatten_runs]
  · exact ne_nil_of_mem_runs _ _ (segment_mem_runs hturn)
  · exact exists_isRead_of_mem_runs _ _ (segment_mem_runs hturn)
  · rw [length_eq_totalLength hturn, totalLength_eq_sum]
  · have hchain := isChain_runs_opposite ops
    rwa [← hruns, List.isChain_map] at hchain
  · exact runAt_le ops (Nat.le_of_lt hstart)
  · rw [check, forM_checkTurn]
    rfl
  · exact (layTurns_eq addr ops (Nat.zero_le _)).symm

/-- Operations that move nothing belong to runs like any other. -/
theorem empty_operations_are_cut :
    let ops : List Operation := [.write [], .write [1], .read [], .read [0, 0], .write []]
    (turns ops 0).map (segment ops)
        = [[.write [], .write [1]], [.read [], .read [0, 0]], [.write []]]
      ∧ runAt ops 2 = (4, 2) ∧ runAt ops 4 = (5, 0) ∧ 4 < ops.length ∧ 4 < (runAt ops 4).1 := by
  intro ops
  obtain ⟨-, -, hruns, -, -, -, hon, -⟩ := turns_partition ops
  have hlast : 4 < ops.length := by decide
  exact ⟨hruns, rfl, rfl, hlast, (hon 4 hlast).1⟩

end TwoWire.Operation
