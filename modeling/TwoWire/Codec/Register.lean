/-!
# The codec's control registers

Every control register has a number, a name and an offset. On the bus a register lies at sub-address
`registerBase + offset`, in 16 bits.
-/

namespace TwoWire.Codec

/-- The codec's address with both address pins high. -/
def defaultAddress : UInt8 := 0x3B

/-- Sub-address of the first control register. -/
def registerBase : UInt16 := 0x4000

/-- Enables the core clock, in the clock control register. -/
def coreClockEnable : UInt8 := 0x01

/-- A control register. -/
structure Register where
  name : String
  offset : UInt8
  deriving DecidableEq, Repr

namespace Register

/-- Clock control. -/
def clockControl : Register := ⟨"R0_CLKCTRL", 0x00⟩

/-- First register of the PLL block. -/
def pll : Register := ⟨"R1_PLL", 0x02⟩

/-- The registers that follow the PLL block, each with its value in the reference bring-up. -/
def reference : List (Register × UInt8) := [
  (⟨"R2_MICJACK", 0x08⟩, 0x00),
  (⟨"R3_REC", 0x09⟩, 0x00),
  (⟨"R4_RECMXL0", 0x0A⟩, 0x01),
  (⟨"R5_RECMXL1", 0x0B⟩, 0x05),
  (⟨"R6_RECMXR0", 0x0C⟩, 0x01),
  (⟨"R7_RECMXR1", 0x0D⟩, 0x05),
  (⟨"R8_LDVOL", 0x0E⟩, 0x00),
  (⟨"R9_RDVOL", 0x0F⟩, 0x00),
  (⟨"R10_RECMIC", 0x10⟩, 0x00),
  (⟨"R11_ALC0", 0x11⟩, 0x00),
  (⟨"R12_ALC1", 0x12⟩, 0x00),
  (⟨"R13_ALC2", 0x13⟩, 0x00),
  (⟨"R14_ALC3", 0x14⟩, 0x00),
  (⟨"R15_SP0", 0x15⟩, 0x00),
  (⟨"R16_SP1", 0x16⟩, 0x00),
  (⟨"R17_CONV0", 0x17⟩, 0x00),
  (⟨"R18_CONV1", 0x18⟩, 0x00),
  (⟨"R19_ADCCTRL", 0x19⟩, 0x13),
  (⟨"R20_LADVOL", 0x1A⟩, 0x00),
  (⟨"R21_RADVOL", 0x1B⟩, 0x00),
  (⟨"R22_PLAYMXL0", 0x1C⟩, 0x21),
  (⟨"R23_PLAYMXL1", 0x1D⟩, 0x00),
  (⟨"R24_PLAYMXR0", 0x1E⟩, 0x41),
  (⟨"R25_PLAYMXR1", 0x1F⟩, 0x00),
  (⟨"R26_PLAYLRMXL", 0x20⟩, 0x05),
  (⟨"R27_PLAYLRMXR", 0x21⟩, 0x11),
  (⟨"R28_PLAYLRMXM", 0x22⟩, 0x00),
  (⟨"R29_PLAYHLVOL", 0x23⟩, 0xE7),
  (⟨"R30_PLAYHRVOL", 0x24⟩, 0xE7),
  (⟨"R31_LOLVOL", 0x25⟩, 0xE6),
  (⟨"R32_LORVOL", 0x26⟩, 0xE6),
  (⟨"R33_PLAYMO", 0x27⟩, 0x00),
  (⟨"R34_POP", 0x28⟩, 0x00),
  (⟨"R35_PLAYPWR", 0x29⟩, 0x03),
  (⟨"R36_DACCTRL0", 0x2A⟩, 0x03),
  (⟨"R37_DACCTRL1", 0x2B⟩, 0x00),
  (⟨"R38_DACCTRL2", 0x2C⟩, 0x00),
  (⟨"R39_SERPAD", 0x2D⟩, 0xAA),
  (⟨"R40_CTRLPAD0", 0x2F⟩, 0xAA),
  (⟨"R41_CTRLPAD1", 0x30⟩, 0x00),
  (⟨"R42_JACKPIN", 0x31⟩, 0x08),
  (⟨"R67_DEJITTER", 0x36⟩, 0x00),
  (⟨"R43_CRC3", 0xC0⟩, 0x00),
  (⟨"R44_CRC2", 0xC1⟩, 0x00),
  (⟨"R45_CRC1", 0xC2⟩, 0x00),
  (⟨"R46_CRC0", 0xC3⟩, 0x00),
  (⟨"R47_CRCEN", 0xC4⟩, 0x00),
  (⟨"R48_GPIO0", 0xC6⟩, 0x00),
  (⟨"R49_GPIO1", 0xC7⟩, 0x00),
  (⟨"R50_GPIO2", 0xC8⟩, 0x00),
  (⟨"R51_GPIO3", 0xC9⟩, 0x00),
  (⟨"R52_DOGEN", 0xD0⟩, 0x00),
  (⟨"R53_DOGVAL2", 0xD1⟩, 0x00),
  (⟨"R54_DOGVAL1", 0xD2⟩, 0x00),
  (⟨"R55_DOGVAL0", 0xD3⟩, 0x00),
  (⟨"R56_DOGERR", 0xD4⟩, 0x00),
  (⟨"R57_DSPSR", 0xEB⟩, 0x01),
  (⟨"R58_SINRT", 0xF2⟩, 0x01),
  (⟨"R59_SOUTRT", 0xF3⟩, 0x01),
  (⟨"R60_SGPIN", 0xF4⟩, 0x00),
  (⟨"R61_DSPEN", 0xF5⟩, 0x00),
  (⟨"R62_DSPRUN", 0xF6⟩, 0x00),
  (⟨"R63_DSPSLEW", 0xF7⟩, 0x00),
  (⟨"R64_SPSR", 0xF8⟩, 0x00),
  (⟨"R65_CLKEN0", 0xF9⟩, 0x7F),
  (⟨"R66_CLKEN1", 0xFA⟩, 0x03)]

/-- All control registers. -/
def all : List Register := clockControl :: pll :: reference.map Prod.fst

/-- The register of a name. -/
def find? (name : String) : Option Register := all.find? (·.name = name)

end Register

end TwoWire.Codec
