import TwoWire.Proc

/-!
# Register blocks

A register block answers reads and writes at byte offsets from its base; reading may change it, as
taking a byte out of a FIFO does. An access takes one from the allowance and shows as an event
once it is done; an access that the block does not know halts the run.
-/

namespace TwoWire

/-- A state that answers register accesses. -/
class RegisterBlock (β : Type) where
  read : (width : Width) → (offset : Nat) → β → Except Fault (width.Value × β)
  write : (width : Width) → (offset : Nat) → width.Value → β → Except Fault β

namespace RegisterBlock

variable {β : Type} [RegisterBlock β]

/-- Reads a register. -/
def load (width : Width) (offset : Nat) : Proc β width.Value := fun block n =>
  match n with
  | 0 => ⟨[], .error .exhausted, block, 0⟩
  | n + 1 =>
    match RegisterBlock.read width offset block with
    | .error fault => ⟨[], .error (.fault fault), block, n⟩
    | .ok (value, block) => ⟨[.read width offset value], .ok value, block, n⟩

/-- Writes a register. -/
def store (width : Width) (offset : Nat) (value : width.Value) : Proc β Unit := fun block n =>
  match n with
  | 0 => ⟨[], .error .exhausted, block, 0⟩
  | n + 1 =>
    match RegisterBlock.write width offset value block with
    | .error fault => ⟨[], .error (.fault fault), block, n⟩
    | .ok block => ⟨[.write width offset value], .ok (), block, n⟩

end RegisterBlock

/-- A register block reached through a handle: every access goes on to the block. -/
structure Handle (β : Type) where
  block : β

instance {β : Type} [RegisterBlock β] : RegisterBlock (Handle β) where
  read width offset handle :=
    (RegisterBlock.read width offset handle.block).map fun (value, block) => (value, ⟨block⟩)
  write width offset value handle :=
    (RegisterBlock.write width offset value handle.block).map Handle.mk

end TwoWire
