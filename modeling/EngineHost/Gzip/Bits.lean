import EngineHost.Bytes

/-!
# Bit strings

A byte string read bit by bit, each byte from its least significant bit on. Main statement: a bit
that is read is gone.
-/

namespace EngineHost.Gzip

/-- What is left to read: the remaining bits of the byte that has been started, and the bytes after
it. -/
structure Bits where
  /-- The remaining bits of the current byte. -/
  pending : List Bool := []
  /-- The bytes after it. -/
  bytes : Bytes
  deriving Repr

namespace Bits

/-- The bits of a byte, the least significant first. -/
def ofByte (b : UInt8) : List Bool := (List.range 8).map b.toNat.testBit

/-- The number of bits left. -/
def size (bits : Bits) : Nat := bits.pending.length + 8 * bits.bytes.length

/-- The next bit. -/
def next? (bits : Bits) : Option (Bool × Bits) :=
  match bits.pending, bits.bytes with
  | bit :: pending, bytes => some (bit, ⟨pending, bytes⟩)
  | [], b :: bytes => some (b.toNat.testBit 0, ⟨(ofByte b).drop 1, bytes⟩)
  | [], [] => none

/-- The number in the next `count` bits, the least significant first. -/
def take? : Nat → Bits → Option (Nat × Bits)
  | 0, bits => some (0, bits)
  | count + 1, bits =>
    match bits.next? with
    | none => none
    | some (bit, rest) =>
      match take? count rest with
      | none => none
      | some (n, last) => some (2 * n + bit.toNat, last)

/-- The bytes after the current one, whose remaining bits are dropped. -/
def aligned (bits : Bits) : Bytes := bits.bytes

/-- A bit that is read is gone. -/
theorem size_of_next? {bits rest : Bits} {bit : Bool} (h : bits.next? = some (bit, rest)) :
    rest.size + 1 = bits.size := by
  rcases bits with ⟨_ | ⟨b, pending⟩, bytes⟩
  · cases bytes with
    | nil => simp [next?] at h
    | cons b bytes =>
      simp only [next?, Option.some.injEq, Prod.mk.injEq] at h
      obtain ⟨-, rfl⟩ := h
      simp [size, ofByte]
      omega
  · simp only [next?, Option.some.injEq, Prod.mk.injEq] at h
    obtain ⟨-, rfl⟩ := h
    simp [size]
    omega

/-- Reading a number takes as many bits as it has. -/
theorem size_of_take? {count n : Nat} {bits rest : Bits} (h : take? count bits = some (n, rest)) :
    rest.size + count = bits.size := by
  induction count generalizing bits n with
  | zero =>
    simp only [take?, Option.some.injEq, Prod.mk.injEq] at h
    simp [h.2]
  | succ count ih =>
    simp only [take?] at h
    split at h
    · simp at h
    · rename_i bit mid hnext
      split at h
      · simp at h
      · rename_i m last htake
        simp only [Option.some.injEq, Prod.mk.injEq] at h
        obtain ⟨-, rfl⟩ := h
        have hfirst := size_of_next? hnext
        have hothers := ih htake
        omega

end Bits

end EngineHost.Gzip
