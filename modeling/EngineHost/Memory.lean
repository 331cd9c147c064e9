import EngineHost.Bytes

/-!
# Linear memory

The memory of an engine: a number of bytes that grows by whole pages and never beyond four
gibibytes. Every access has to lie inside.
-/

namespace EngineHost

/-- The memory of an engine, which the host reaches through an `Arena`. -/
structure LinearMemory where
  /-- The number of bytes. -/
  size : Nat
  /-- Every byte has an address of 32 bits. -/
  size_le : size ≤ 0x100000000
  /-- The byte at an address. -/
  byteAt : Nat → UInt8

namespace LinearMemory

/-- The bytes of a page. -/
def pageSize : Nat := 65536

/-- The greatest number of pages. -/
def maxPages : Nat := 65536

/-- A memory of zeros; no more than the greatest number of pages. -/
def zeros (pages : Nat) : LinearMemory where
  size := min pages maxPages * pageSize
  size_le := by
    have h : min pages maxPages ≤ 65536 := Nat.min_le_right _ _
    calc min pages maxPages * pageSize ≤ 65536 * 65536 := Nat.mul_le_mul_right _ h
      _ = 0x100000000 := by decide
  byteAt := fun _ => 0

/-- The bytes from an address on, if `checked_range` finds that they lie inside. -/
def read? (m : LinearMemory) (address length : Nat) : Option Bytes :=
  if address + length ≤ m.size then
    some ((List.range length).map fun i => m.byteAt (address + i))
  else none

/-- `Arena.write`: the memory after bytes are written from an address on, if they lie inside. -/
def write? (m : LinearMemory) (address : Nat) (bytes : Bytes) : Option LinearMemory :=
  let block := bytes.toArray
  if address + block.size ≤ m.size then
    some { m with
      byteAt := fun i =>
        if address ≤ i ∧ i < address + block.size then block.getD (i - address) 0
        else m.byteAt i }
  else none

/-- The memory with more pages, if there are no more than `limit` of them in all. New bytes are
zero. -/
def grow? (m : LinearMemory) (pages limit : Nat) : Option LinearMemory :=
  if h : m.size + pages * pageSize ≤ min limit maxPages * pageSize then
    some {
      size := m.size + pages * pageSize
      size_le := Nat.le_trans h (zeros limit).size_le
      byteAt := fun i => if i < m.size then m.byteAt i else 0 }
  else none

end LinearMemory

end EngineHost
