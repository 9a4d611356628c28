import TwoWire.Log.Level

/-!
# Console lines

A console line holds at most 128 bytes. Text is added piece by piece: of a piece, the characters
before the first that does not fit are kept and the rest is dropped, and later pieces are still
tried. A line starts with the level's tag in brackets.
-/

namespace TwoWire.Log

namespace Line

/-- Bytes that a line holds. -/
def capacity : Nat := 128

/-- Bytes of a text in UTF-8. -/
def size : List Char → Nat
  | [] => 0
  | c :: rest => c.utf8Size + size rest

@[simp] theorem size_nil : size [] = 0 := rfl

@[simp] theorem size_cons (c : Char) (rest : List Char) :
    size (c :: rest) = c.utf8Size + size rest := rfl

@[simp] theorem size_append (a b : List Char) : size (a ++ b) = size a + size b := by
  induction a with
  | nil => simp
  | cons c rest ih => simp [ih, Nat.add_assoc]

/-- The line with one more piece, cut at the first character that does not fit. -/
def add (line : List Char) : List Char → List Char
  | [] => line
  | c :: rest => if size line + c.utf8Size ≤ capacity then add (line ++ [c]) rest else line

/-- The line made of the given pieces. -/
def ofPieces (pieces : List String) : List Char :=
  pieces.foldl (fun line piece => add line piece.toList) []

/-- The line of a record. -/
def ofRecord (level : Level) (pieces : List String) : List Char :=
  ofPieces (["[", level.tag, "] "] ++ pieces)

/-- A text in UTF-8. -/
def encode (text : List Char) : List UInt8 := text.flatMap String.utf8EncodeChar

/-- What ends a line. -/
def ending : List UInt8 := [0x0D, 0x0A]

theorem length_encode (text : List Char) : (encode text).length = size text := by
  induction text with
  | nil => rfl
  | cons c rest ih => simp_all [encode, String.length_utf8EncodeChar]

/-- Adding text never overfills a line. -/
theorem size_add_le {line : List Char} (h : size line ≤ capacity) (piece : List Char) :
    size (add line piece) ≤ capacity := by
  induction piece generalizing line with
  | nil => exact h
  | cons c rest ih =>
    unfold add
    split
    · next hc => exact ih (by simpa using hc)
    · exact h

end Line

end TwoWire.Log
