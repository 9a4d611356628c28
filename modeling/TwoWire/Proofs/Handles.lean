import TwoWire.Proofs.Alike
import TwoWire.RegisterBlock

/-!
# Register blocks behind handles

A handle passes every access on. A block behind any number of handles therefore looks like the block
itself (`Access.alike_performAll`), and it makes no difference either if a block is lent through
some handles for one access and taken back after it (`Access.through_perform`).
-/

namespace TwoWire

open Proc (Alike)

variable {α β : Type}

/-! ## Handles -/

namespace Handle

/-- What looks like a procedure on a block looks like it through a handle, too. -/
theorem alike_zoom {σ : Type} {R : σ → β → Prop} {p : Proc σ α} {q : Proc β α} (h : Alike R p q) :
    Alike (fun s (handle : Handle β) => R s handle.block) p
      (q.zoom Handle.block fun block _ => ⟨block⟩) := by
  intro s handle hs n
  obtain ⟨hevents, houtcome, hstate, hleft⟩ := h hs n
  exact ⟨hevents, houtcome, hstate, hleft⟩

variable [RegisterBlock β]

/-- Loading through a handle is loading from its block. -/
theorem load_eq_zoom (width : Width) (offset : Nat) :
    (RegisterBlock.load width offset : Proc (Handle β) width.Value)
      = (RegisterBlock.load width offset).zoom Handle.block fun block _ => ⟨block⟩ := by
  funext handle n
  cases n with
  | zero => rfl
  | succ n =>
    simp only [RegisterBlock.load, RegisterBlock.read, Proc.zoom]
    cases RegisterBlock.read width offset handle.block <;> rfl

/-- Storing through a handle is storing in its block. -/
theorem store_eq_zoom (width : Width) (offset : Nat) (value : width.Value) :
    (RegisterBlock.store width offset value : Proc (Handle β) Unit)
      = (RegisterBlock.store width offset value).zoom Handle.block fun block _ => ⟨block⟩ := by
  funext handle n
  cases n with
  | zero => rfl
  | succ n =>
    simp only [RegisterBlock.store, RegisterBlock.write, Proc.zoom]
    cases RegisterBlock.write width offset value handle.block <;> rfl

end Handle

/-- A block behind a number of handles, each of which leads to the next one. -/
def Handles (β : Type) : Nat → Type
  | 0 => β
  | depth + 1 => Handle (Handles β depth)

namespace Handles

instance registerBlock [RegisterBlock β] : (depth : Nat) → RegisterBlock (Handles β depth)
  | 0 => inferInstanceAs (RegisterBlock β)
  | depth + 1 =>
    letI := registerBlock depth
    inferInstanceAs (RegisterBlock (Handle (Handles β depth)))

/-- The block that the handles lead to. -/
def block : {depth : Nat} → Handles β depth → β
  | 0, block => block
  | _ + 1, handle => block (Handle.block handle)

/-- Handles around a block. -/
def around : (depth : Nat) → β → Handles β depth
  | 0, block => block
  | depth + 1, block => Handle.mk (around depth block)

@[simp] theorem block_around (depth : Nat) (b : β) : (around depth b).block = b := by
  induction depth with
  | zero => rfl
  | succ depth ih => exact ih

/-- The handles lead to the block. -/
def LeadTo {depth : Nat} (b : β) (handles : Handles β depth) : Prop := handles.block = b

section Access

variable [RegisterBlock β]

theorem alike_load (depth : Nat) (width : Width) (offset : Nat) :
    Alike LeadTo (RegisterBlock.load width offset : Proc β width.Value)
      (RegisterBlock.load width offset : Proc (Handles β depth) width.Value) := by
  induction depth with
  | zero =>
    rintro b _ rfl n
    exact ⟨rfl, rfl, rfl, rfl⟩
  | succ depth ih =>
    have hload := Handle.alike_zoom ih
    rwa [← Handle.load_eq_zoom] at hload

theorem alike_store (depth : Nat) (width : Width) (offset : Nat) (value : width.Value) :
    Alike LeadTo (RegisterBlock.store width offset value : Proc β Unit)
      (RegisterBlock.store width offset value : Proc (Handles β depth) Unit) := by
  induction depth with
  | zero =>
    rintro b _ rfl n
    exact ⟨rfl, rfl, rfl, rfl⟩
  | succ depth ih =>
    have hstore := Handle.alike_zoom ih
    rwa [← Handle.store_eq_zoom] at hstore

end Access

/-- Lends the block of a procedure through some handles, and takes it back at the end. -/
def through (depth : Nat) (p : Proc (Handles β depth) α) : Proc β α :=
  p.zoom (around depth) fun handles _ => handles.block

/-- What looks the same behind handles is done through them as without. -/
theorem through_eq_of_alike {depth : Nat} {p : Proc β α} {q : Proc (Handles β depth) α}
    (h : Alike LeadTo p q) : through depth q = p := by
  funext b n
  obtain ⟨hevents, houtcome, hstate, hleft⟩ := h (block_around depth b) n
  show Exec.mk (q (around depth b) n).events _ (q (around depth b) n).state.block _ = p b n
  rw [hevents, houtcome, hstate, hleft]

end Handles

/-! ## Accesses -/

/-- An access to a register block. -/
inductive Access
  | read (width : Width) (offset : Nat)
  | write (width : Width) (offset : Nat) (value : width.Value)
  deriving DecidableEq

namespace Access

/-- What an access gives: a read the value read, a write nothing. -/
abbrev Answer : Type := Option ((width : Width) × width.Value)

variable [RegisterBlock β]

/-- Makes the access. -/
def perform : Access → Proc β Answer
  | read width offset => (some ⟨width, ·⟩) <$> RegisterBlock.load width offset
  | write width offset value => (fun _ => none) <$> RegisterBlock.store width offset value

/-- Makes accesses one after another, each of them through a number of handles of its own. -/
def performAll : List (Nat × Access) → Proc β (List Answer)
  | [] => return []
  | (depth, access) :: rest => do
    let answer ← Handles.through depth access.perform
    let answers ← performAll rest
    return answer :: answers

theorem alike_perform (depth : Nat) (access : Access) :
    Alike Handles.LeadTo (access.perform : Proc β Answer)
      (access.perform : Proc (Handles β depth) Answer) := by
  cases access with
  | read width offset => exact (Handles.alike_load depth width offset).map _
  | write width offset value => exact (Handles.alike_store depth width offset value).map _

/-- Lending the block for one access makes no difference. -/
theorem through_perform (depth : Nat) (access : Access) :
    Handles.through depth access.perform = (access.perform : Proc β Answer) :=
  Handles.through_eq_of_alike (alike_perform depth access)

/-- **Accesses behind handles look like accesses to the block itself.** -/
theorem alike_performAll (depth : Nat) (script : List (Nat × Access)) :
    Alike Handles.LeadTo (performAll script : Proc β (List Answer))
      (performAll script : Proc (Handles β depth) (List Answer)) := by
  induction script with
  | nil => exact Proc.alike_pure []
  | cons step rest ih =>
    obtain ⟨more, access⟩ := step
    simp only [performAll, through_perform]
    exact (alike_perform depth access).bind fun answer => ih.bind fun answers => Proc.alike_pure _

end Access

end TwoWire
