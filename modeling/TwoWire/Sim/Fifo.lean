/-!
# FIFOs

A FIFO gives its elements back in the order in which they were put in. The elements that come first
are kept in order, the others with the last one first; when the first part runs out, the second one
is turned around. `toList` gives all elements in order, and the lemmas say what each operation does
to that list.
-/

namespace TwoWire.Sim

/-- A queue of elements. -/
structure Fifo (α : Type) where
  /-- The elements that come first, in order. -/
  front : List α
  /-- The elements after those, the last one first. -/
  back : List α
  deriving Repr

namespace Fifo

variable {α : Type}

/-- No elements. -/
def empty : Fifo α := ⟨[], []⟩

/-- The elements in order. -/
def toList (q : Fifo α) : List α := q.front ++ q.back.reverse

/-- Number of elements. -/
def size (q : Fifo α) : Nat := q.front.length + q.back.length

def isEmpty (q : Fifo α) : Bool := q.front.isEmpty && q.back.isEmpty

/-- Puts elements in, in order. -/
def append (q : Fifo α) (as : List α) : Fifo α := { q with back := as.reverse ++ q.back }

/-- Takes the first element out, if there is one. -/
def pop? (q : Fifo α) : Option (α × Fifo α) :=
  match q.front with
  | a :: front => some (a, { q with front })
  | [] =>
    match q.back.reverse with
    | [] => none
    | a :: front => some (a, ⟨front, []⟩)

@[simp] theorem toList_empty : (empty : Fifo α).toList = [] := rfl

@[simp] theorem length_toList (q : Fifo α) : q.toList.length = q.size := by simp [toList, size]

@[simp] theorem toList_append (q : Fifo α) (as : List α) :
    (q.append as).toList = q.toList ++ as := by
  simp [toList, append]

theorem isEmpty_iff (q : Fifo α) : q.isEmpty = true ↔ q.toList = [] := by
  simp [isEmpty, toList]

/-- There is nothing to take out of an empty queue. -/
theorem pop?_of_toList_nil {q : Fifo α} (h : q.toList = []) : q.pop? = none := by
  have ⟨hf, hb⟩ : q.front = [] ∧ q.back = [] := by simpa [toList] using h
  simp [pop?, hf, hb]

/-- What is taken out is the first element, and the others stay in order. -/
theorem pop?_of_toList_cons {q : Fifo α} {a : α} {as : List α} (h : q.toList = a :: as) :
    ∃ rest, q.pop? = some (a, rest) ∧ rest.toList = as := by
  obtain ⟨front, back⟩ := q
  cases front with
  | cons b front =>
    simp only [toList, List.cons_append, List.cons.injEq] at h
    obtain ⟨rfl, rfl⟩ := h
    exact ⟨⟨front, back⟩, rfl, rfl⟩
  | nil =>
    have hb : back.reverse = a :: as := by simpa [toList] using h
    exact ⟨⟨as, []⟩, by simp [pop?, hb], by simp [toList]⟩

end Fifo

end TwoWire.Sim
