/-!
# Hexadecimal text

Lower-case hexadecimal, as it appears in log records and fault messages. A width is a least
number of digits: a value that needs more digits gets them.
-/

namespace TwoWire.Hex

/-- At least `width` digits, filled with zeros on the left. -/
def padded (width n : Nat) : String :=
  let digits := Nat.toDigits 16 n
  String.ofList (List.replicate (width - digits.length) '0' ++ digits)

/-- No more digits than needed; zero has one. -/
def plain (n : Nat) : String := padded 1 n

/-- At least `width` digits after the mark `0x`. -/
def marked (width n : Nat) : String := "0x" ++ padded width n

/-- Two digits a byte, without separators. -/
def bytes (bs : List UInt8) : String := String.join (bs.map fun b => padded 2 b.toNat)

/-- Two digits a byte, as a bracketed list. -/
def listed (bs : List UInt8) : String :=
  "[" ++ String.intercalate ", " (bs.map fun b => padded 2 b.toNat) ++ "]"

end TwoWire.Hex
