import TwoWire.Codec.Register

/-!
# Init tables

An init table lists register writes in the order in which they are made. An older form is a flat
list of bytes, an offset and a value by turns, ended by `0xFF` in the place of an offset;
`InitTable.ofFlat` reads it. A value may be `0xFF`, and a lone last byte is no entry.
-/

namespace TwoWire.Codec

/-- One register write. -/
structure InitEntry where
  offset : UInt8
  value : UInt8
  deriving DecidableEq, Repr

namespace InitTable

/-- In the place of an offset, ends a flat table. -/
def sentinel : UInt8 := 0xFF

/-- The entries of a flat table. -/
def ofFlat : List UInt8 → List InitEntry
  | offset :: value :: rest =>
    if offset = sentinel then [] else ⟨offset, value⟩ :: ofFlat rest
  | _ => []

/-- The bytes of entries, without an end mark. -/
def toFlat (entries : List InitEntry) : List UInt8 := entries.flatMap fun e => [e.offset, e.value]

/-- Line input passed on to the headphones, the signal processor left out. -/
def reference : List InitEntry :=
  Register.reference.map fun (register, value) => ⟨register.offset, value⟩

theorem toFlat_cons (e : InitEntry) (entries : List InitEntry) :
    toFlat (e :: entries) = e.offset :: e.value :: toFlat entries := rfl

end InitTable

end TwoWire.Codec
