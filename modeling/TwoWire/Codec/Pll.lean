import TwoWire.Width

/-!
# The codec's PLL block

The PLL is set by a block of six registers that is written and read as a whole: the denominator
and the numerator of the fractional part, each with the high byte first, then

```text
byte 4   0 R[3:0] X[1:0] Type
byte 5   0 .. Lock Enable
```

The lock bit can only be read.
-/

namespace TwoWire.Codec

/-- The contents of the PLL block. -/
structure Pll where
  /-- Denominator of the fractional part. -/
  m : UInt16
  /-- Numerator of the fractional part. -/
  n : UInt16
  config : UInt8
  control : UInt8
  deriving DecidableEq, Repr

namespace Pll

/-- Bytes in a block. -/
def blockLength : Nat := 6

/-! ## Bits and fields -/

def enableBit : UInt8 := 0x01

def lockBit : UInt8 := 0x02

def fractionalBit : UInt8 := 0x01

def xShift : UInt8 := 1

def xMask : UInt8 := 0x03

def rShift : UInt8 := 3

def rMask : UInt8 := 0x0F

/-- The configuration byte; what does not fit a field is cut off. -/
def configOf (r x : UInt8) (fractional : Bool) : UInt8 :=
  ((r &&& rMask) <<< rShift) ||| ((x &&& xMask) <<< xShift)
    ||| (if fractional then fractionalBit else 0)

/-- The PLL is bypassed. -/
def disabled : Pll := ⟨0, 0, 0, 0⟩

/-- Enabled: the input divided by `x + 1` and multiplied by `r`. -/
def integer (r x : UInt8) : Pll := ⟨0, 0, configOf r x false, enableBit⟩

/-- Enabled: the input divided by `x + 1` and multiplied by `r + n / m`. -/
def fractional (r x : UInt8) (n m : UInt16) : Pll := ⟨m, n, configOf r x true, enableBit⟩

def isEnabled (p : Pll) : Bool := p.control &&& enableBit != 0

def isLocked (p : Pll) : Bool := p.control &&& lockBit != 0

def isFractional (p : Pll) : Bool := p.config &&& fractionalBit != 0

def r (p : Pll) : UInt8 := (p.config >>> rShift) &&& rMask

def x (p : Pll) : UInt8 := (p.config >>> xShift) &&& xMask

/-! ## Blocks -/

/-- A 16-bit number, high byte first. -/
def bigEndian (v : UInt16) : List UInt8 := [(v >>> 8).toUInt8, v.toUInt8]

/-- The number of a high and a low byte. -/
def ofBigEndian (high low : UInt8) : UInt16 := (high.toUInt16 <<< 8) ||| low.toUInt16

/-- The six bytes of a block. -/
def toBlock (p : Pll) : List UInt8 := bigEndian p.m ++ bigEndian p.n ++ [p.config, p.control]

/-- The contents of six bytes; of a list of another length, nothing set. -/
def ofBlock : List UInt8 → Pll
  | [m₁, m₀, n₁, n₀, config, control] =>
    ⟨ofBigEndian m₁ m₀, ofBigEndian n₁ n₀, config, control⟩
  | _ => disabled

@[simp] theorem length_toBlock (p : Pll) : p.toBlock.length = blockLength := rfl

end Pll

end TwoWire.Codec
