/-!
# Trails

A trail is a sequence that grows at its end. It is kept with the last element first and with its
length beside it, so that an element is added in constant time; `toList` gives the elements in
order, and the lemmas say what each operation does to that list.
-/

namespace TwoWire

/-- A sequence that grows at its end. -/
structure Trail (α : Type) where
  size : Nat
  newestFirst : List α
  size_eq : size = newestFirst.length
  deriving DecidableEq, Repr

namespace Trail

variable {α : Type}

/-- No elements. -/
def empty : Trail α := ⟨0, [], rfl⟩

/-- The elements in order. -/
def toList (t : Trail α) : List α := t.newestFirst.reverse

/-- One more element. -/
def push (t : Trail α) (a : α) : Trail α := ⟨t.size + 1, a :: t.newestFirst, by simp [t.size_eq]⟩

/-- More elements, in order. -/
def append (t : Trail α) (as : List α) : Trail α :=
  ⟨as.length + t.size, as.reverse ++ t.newestFirst, by simp [t.size_eq]⟩

/-- All but the last element. -/
def pop (t : Trail α) : Trail α := ⟨t.size - 1, t.newestFirst.tail, by simp [t.size_eq]⟩

@[simp] theorem toList_empty : (empty : Trail α).toList = [] := rfl

@[simp] theorem toList_push (t : Trail α) (a : α) : (t.push a).toList = t.toList ++ [a] := by
  simp [toList, push]

@[simp] theorem toList_append (t : Trail α) (as : List α) :
    (t.append as).toList = t.toList ++ as := by
  simp [toList, append]

@[simp] theorem toList_pop (t : Trail α) : t.pop.toList = t.toList.dropLast := by
  simp [toList, pop]

@[simp] theorem length_toList (t : Trail α) : t.toList.length = t.size := by
  simp [toList, t.size_eq]

end Trail

end TwoWire
