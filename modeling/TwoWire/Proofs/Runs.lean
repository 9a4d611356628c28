import Mathlib.Data.List.SplitBy
import TwoWire.Proofs.Leg

/-!
# Maximal runs

`Operation.runs` cuts a list into its maximal runs of one kind. `MaximalRun` says what such a run is
without the cutting: a stretch of operations of one kind that no operation of that kind stands right
before or right after. `mem_runs_iff` says that these are the runs.

The runs are what `List.splitBy` gives for operations of one kind (`runs_eq_splitBy`), so lists can
be cut where the kind changes (`runs_append`).
-/

namespace TwoWire.Operation

/-- Two operations are of one kind. -/
def sameKind (a b : Operation) : Bool := a.isRead == b.isRead

/-- A stretch of operations of one kind that cannot be made longer on either side. -/
def MaximalRun (ops run : List Operation) : Prop :=
  ∃ before after kind, ops = before ++ run ++ after ∧ run ≠ [] ∧ (∀ op ∈ run, op.isRead = kind)
    ∧ (∀ op ∈ before.getLast?, op.isRead ≠ kind) ∧ (∀ op ∈ after.head?, op.isRead ≠ kind)

/-! ## Neighbours differ -/

theorem isChain_consRun {op : Operation} {rs : List (List Operation)} (hne : ∀ r ∈ rs, r ≠ [])
    (h : rs.IsChain fun r next => ∃ hr hnext, sameKind (r.getLast hr) (next.head hnext) = false) :
    (consRun op rs).IsChain fun r next =>
      ∃ hr hnext, sameKind (r.getLast hr) (next.head hnext) = false := by
  match rs, hne, h with
  | [], _, _ => exact List.isChain_singleton _
  | [] :: _, hne, _ => exact absurd rfl (hne [] List.mem_cons_self)
  | (next :: run) :: rest, _, h =>
    by_cases hk : op.isRead = next.isRead
    · -- the first run only grows at its front
      rw [consRun, if_pos hk]
      rw [List.isChain_cons] at h ⊢
      refine ⟨fun r hr => ?_, h.2⟩
      obtain ⟨hfirst, hnext, hdiffer⟩ := h.1 r hr
      exact ⟨List.cons_ne_nil _ _, hnext, by rwa [List.getLast_cons hfirst]⟩
    · rw [consRun, if_neg hk]
      refine List.isChain_cons.mpr ⟨fun r hr => ?_, h⟩
      obtain rfl : next :: run = r := Option.some.inj hr
      exact ⟨List.cons_ne_nil _ _, List.cons_ne_nil _ _, by simpa [sameKind] using hk⟩

/-- Where one run ends and the next one begins, the kind changes. -/
theorem isChain_runs (ops : List Operation) :
    (runs ops).IsChain fun r next =>
      ∃ hr hnext, sameKind (r.getLast hr) (next.head hnext) = false := by
  induction ops with
  | nil => exact List.isChain_nil
  | cons op rest ih => exact isChain_consRun (ne_nil_of_mem_runs rest) ih

theorem isChain_sameKind {run : List Operation} {kind : Bool} (h : ∀ op ∈ run, op.isRead = kind) :
    run.IsChain fun a b => sameKind a b = true := by
  refine List.Pairwise.isChain (List.pairwise_of_forall_mem_list fun a ha b hb => ?_)
  simp [sameKind, h a ha, h b hb]

/-- The runs are the stretches into which the list falls by kind. -/
theorem runs_eq_splitBy (ops : List Operation) : runs ops = ops.splitBy sameKind := by
  refine (List.splitBy_eq_iff.mpr ⟨(flatten_runs ops).symm, ?_, ?_, isChain_runs ops⟩).symm
  · intro hmem
    exact ne_nil_of_mem_runs ops [] hmem rfl
  · intro r hr
    obtain ⟨kind, hkind⟩ := exists_isRead_of_mem_runs ops r hr
    exact isChain_sameKind hkind

/-! ## Cutting -/

/-- Where the kind changes, the runs of the two parts are the runs of the whole. -/
theorem runs_append {before after : List Operation}
    (h : ∀ a ∈ before.getLast?, ∀ b ∈ after.head?, a.isRead ≠ b.isRead) :
    runs (before ++ after) = runs before ++ runs after := by
  rw [runs_eq_splitBy, runs_eq_splitBy, runs_eq_splitBy]
  refine List.splitBy_append fun a ha b hb => ?_
  simpa [sameKind] using h a ha b hb

theorem runs_of_isRead_eq {run : List Operation} {kind : Bool} (hne : run ≠ [])
    (h : ∀ op ∈ run, op.isRead = kind) : runs run = [run] := by
  rw [runs_eq_splitBy]
  exact List.splitBy_of_isChain hne (isChain_sameKind h)

theorem MaximalRun.mem_runs {ops run : List Operation} (h : MaximalRun ops run) :
    run ∈ runs ops := by
  obtain ⟨before, after, kind, rfl, hne, hkind, hbefore, hafter⟩ := h
  have hfirst : ∀ a ∈ before.getLast?, ∀ b ∈ run.head?, a.isRead ≠ b.isRead := by
    intro a ha b hb
    rw [hkind b (List.mem_of_mem_head? hb)]
    exact hbefore a ha
  have hlast : ∀ a ∈ (before ++ run).getLast?, ∀ b ∈ after.head?, a.isRead ≠ b.isRead := by
    intro a ha b hb
    rw [List.getLast?_append_of_ne_nil _ hne] at ha
    rw [hkind a (List.mem_of_mem_getLast? ha)]
    exact (hafter b hb).symm
  rw [runs_append hlast, runs_append hfirst, runs_of_isRead_eq hne hkind]
  simp

theorem maximalRun_of_mem_runs {ops run : List Operation} (h : run ∈ runs ops) :
    MaximalRun ops run := by
  obtain ⟨xs, ys, hsplit⟩ := List.append_of_mem h
  have hne : run ≠ [] := ne_nil_of_mem_runs ops run h
  obtain ⟨kind, hkind⟩ := exists_isRead_of_mem_runs ops run h
  have hchain := isChain_runs ops
  rw [hsplit, List.isChain_append] at hchain
  obtain ⟨-, hrest, hbefore⟩ := hchain
  refine ⟨xs.flatten, ys.flatten, kind, ?_, hne, hkind, fun op hop => ?_, fun op hop => ?_⟩
  · rw [← flatten_runs ops, hsplit]
    simp
  · rcases List.eq_nil_or_concat xs with rfl | ⟨front, last, rfl⟩
    · cases hop
    · -- the operation right before the run is the last one of the run before it
      obtain ⟨hlast, _, hdiffer⟩ := hbefore last (by simp) run rfl
      rw [List.concat_eq_append, List.flatten_append, List.flatten_singleton,
        List.getLast?_append_of_ne_nil _ hlast, List.getLast?_eq_some_getLast hlast] at hop
      obtain rfl := Option.some.inj hop
      rw [← hkind _ (List.head_mem hne)]
      simpa [sameKind] using hdiffer
  · match ys, hrest with
    | [], _ => cases hop
    | next :: rest, hrest =>
      obtain ⟨_, hnext, hdiffer⟩ := (List.isChain_cons.mp hrest).1 next rfl
      rw [List.flatten_cons, List.head?_append_of_ne_nil _ hnext,
        List.head?_eq_some_head hnext] at hop
      obtain rfl := Option.some.inj hop
      rw [← hkind _ (List.getLast_mem hne)]
      intro hsame
      simp [sameKind, hsame] at hdiffer

/-- **The runs of a list are its maximal stretches of one kind.** -/
theorem mem_runs_iff {ops run : List Operation} : run ∈ runs ops ↔ MaximalRun ops run :=
  ⟨maximalRun_of_mem_runs, MaximalRun.mem_runs⟩

end TwoWire.Operation
