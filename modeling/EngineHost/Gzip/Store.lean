import EngineHost.Gzip.Checksum

/-!
# Gzip members without compression

A member whose blocks are all stored as they are. A block holds at most 65535 bytes, and the last
one is marked.
-/

namespace EngineHost.Gzip

/-- The greatest number of bytes in a stored block. -/
def storedLimit : Nat := 65535

/-- The two bytes of a number below `2 ^ 16`, the least significant first. -/
def shortBytes (n : Nat) : Bytes := [UInt8.ofNat n, UInt8.ofNat (n / 256)]

/-- A stored block. -/
def storedBlock (last : Bool) (contents : Bytes) : Bytes :=
  (if last then 1 else 0) :: shortBytes contents.length ++
    shortBytes (storedLimit - contents.length) ++ contents

/-- The stored blocks of data. -/
def storedBlocks (data : Bytes) : Bytes :=
  if data.length ≤ storedLimit then storedBlock true data
  else storedBlock false (data.take storedLimit) ++ storedBlocks (data.drop storedLimit)
termination_by data.length
decreasing_by
  rw [List.length_drop]
  simp only [storedLimit] at *
  omega

/-- The shortest header: no optional part, no time, and an unknown system. -/
def plainHeader : Bytes := [0x1F, 0x8B, 8, 0, 0, 0, 0, 0, 0, 255]

/-- The trailer of data. -/
def trailer (data : Bytes) : Bytes :=
  Bytes.ofWord (checksum data) ++ Bytes.ofWord data.length.toUInt32

/-- A member that holds data without compression. -/
def store (data : Bytes) : Bytes := plainHeader ++ storedBlocks data ++ trailer data

end EngineHost.Gzip
