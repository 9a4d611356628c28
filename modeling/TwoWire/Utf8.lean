/-!
# Reading UTF-8

Bytes are read as UTF-8 text. Where they are not well formed, the longest start of a character that
cannot be completed becomes one replacement character, and reading goes on behind it. The first byte
of a character tells how many bytes follow, and it narrows the range of the second one, which keeps
out overlong forms, surrogates and values above the last character.
-/

namespace TwoWire.Utf8

/-- What follows a first byte: how many bytes, and the range of the first of them. -/
structure Lead where
  count : Nat
  low : UInt8
  high : UInt8
  deriving DecidableEq, Repr

/-- What follows a first byte of a character of several bytes. -/
def lead? (b : UInt8) : Option Lead :=
  if b < 0xC2 then none
  else if b < 0xE0 then some ⟨1, 0x80, 0xBF⟩
  else if b = 0xE0 then some ⟨2, 0xA0, 0xBF⟩
  else if b = 0xED then some ⟨2, 0x80, 0x9F⟩
  else if b < 0xF0 then some ⟨2, 0x80, 0xBF⟩
  else if b = 0xF0 then some ⟨3, 0x90, 0xBF⟩
  else if b < 0xF4 then some ⟨3, 0x80, 0xBF⟩
  else if b = 0xF4 then some ⟨3, 0x80, 0x8F⟩
  else none

/-- The bytes that go on with a character: at most `count`, the first in the given range. -/
def followers (low high : UInt8) : Nat → List UInt8 → List UInt8
  | count + 1, b :: rest =>
    if low ≤ b ∧ b ≤ high then b :: followers 0x80 0xBF count rest else []
  | _, _ => []

/-- The character of a first byte and the bytes that follow it. -/
def charOf (first : UInt8) (following : List UInt8) : Char :=
  let high := first.toNat % (64 >>> following.length)
  Char.ofNat (following.foldl (fun n b => n * 64 + b.toNat % 64) high)

/-- The character in place of what cannot be read. -/
def replacement : Char := '\uFFFD'

/-- The characters of a text. -/
def decode : List UInt8 → List Char
  | [] => []
  | b :: rest =>
    if b < 0x80 then Char.ofNat b.toNat :: decode rest
    else
      match lead? b with
      | none => replacement :: decode rest
      | some lead =>
        let following := followers lead.low lead.high lead.count rest
        (if following.length = lead.count then charOf b following else replacement)
          :: decode (rest.drop following.length)
termination_by bytes => bytes.length
decreasing_by all_goals simp only [List.length_cons, List.length_drop]; omega

/-- The text of some bytes. -/
def text (bytes : List UInt8) : String := String.ofList (decode bytes)

end TwoWire.Utf8
