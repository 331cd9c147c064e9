import EngineHost.Bytes

/-!
# The checksum of gzip

A cyclic redundancy check of 32 bits, with the bits of each byte taken from the least significant
on.
-/

namespace EngineHost.Gzip

/-- One bit of the check. -/
def checksumBit (crc : UInt32) : UInt32 :=
  if crc &&& 1 = 1 then (crc >>> 1) ^^^ 0xEDB88320 else crc >>> 1

/-- One byte of the check. -/
def checksumByte (crc : UInt32) (b : UInt8) : UInt32 :=
  Nat.repeat checksumBit 8 (crc ^^^ b.toUInt32)

/-- The checksum of a byte string. -/
def checksum (bs : Bytes) : UInt32 := bs.foldl checksumByte 0xFFFFFFFF ^^^ 0xFFFFFFFF

end EngineHost.Gzip
