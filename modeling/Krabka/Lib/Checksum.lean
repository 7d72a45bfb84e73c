import Krabka.Lib.ByteStream

/-!
# `Lib.Checksum` — a reflected 32-bit CRC

The bit-at-a-time CRC over a reflected polynomial: the register starts at all ones, each byte goes in at
the low end, and the result is the complement of the register. A finished checksum can be continued,
because complementing it again gives the register back.
-/

namespace Checksum

open ByteStream

/-- The CRC-32C (Castagnoli) polynomial, bit-reversed. -/
def castagnoli : UInt32 := 0x82F63B78

/-- One bit out at the low end. -/
def shiftBit (poly crc : UInt32) : UInt32 :=
  if crc &&& 1 = 1 then (crc >>> 1) ^^^ poly else crc >>> 1

/-- One byte in at the low end, then its eight bits out. -/
def feedByte (poly crc : UInt32) (b : UInt8) : UInt32 :=
  Nat.repeat (shiftBit poly) 8 (crc ^^^ b.toUInt32)

/-- The checksum of `data` continued from the finished checksum `seed`. -/
def crcAppend (poly seed : UInt32) (data : Bytes) : UInt32 :=
  ~~~(data.foldl (feedByte poly) (~~~seed))

/-- The checksum of `data`. -/
def crc (poly : UInt32) (data : Bytes) : UInt32 := crcAppend poly 0 data

/-- Continuing over `b` after `a` is one pass over both. -/
theorem crcAppend_crcAppend (poly seed : UInt32) (a b : Bytes) :
    crcAppend poly (crcAppend poly seed a) b = crcAppend poly seed (a ++ b) := by
  unfold crcAppend
  rw [UInt32.not_not, List.foldl_append]

theorem crcAppend_crc (poly : UInt32) (a b : Bytes) :
    crcAppend poly (crc poly a) b = crc poly (a ++ b) := crcAppend_crcAppend poly 0 a b

/-- The check value of CRC-32C, over the digits `1` to `9`. -/
example : crc castagnoli [0x31, 0x32, 0x33, 0x34, 0x35, 0x36, 0x37, 0x38, 0x39] = 0xE3069283 := by
  decide +kernel

end Checksum
