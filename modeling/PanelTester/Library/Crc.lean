import Mathlib.Tactic

/-!
The reflected cyclic redundancy check, one bit at a time, for any 32-bit
polynomial. Nothing is proved about its error detection: the codecs that carry
a check value only rely on both ends computing the same function.
-/

namespace PanelTester.Library

/-- One bit of the check: shift right and, when a one falls out, add the polynomial. -/
def crcBit (poly crc : UInt32) : UInt32 :=
  (crc >>> 1) ^^^ (if crc &&& 1 ≠ 0 then poly else 0)

/-- One byte of the check: eight bits after adding the byte. -/
def crcByte (poly crc : UInt32) (b : UInt8) : UInt32 :=
  (crcBit poly)^[8] (crc ^^^ b.toUInt32)

/-- The check of a byte string, continued from `crc`. -/
def crcLe (poly crc : UInt32) (p : List UInt8) : UInt32 := p.foldl (crcByte poly) crc

/-- `CRCPOLY_LE` -/
def crcPolyLe : UInt32 := 0xedb88320

@[simp] theorem crcLe_nil (poly crc : UInt32) : crcLe poly crc [] = crc := rfl

end PanelTester.Library
