import EngineHost.Sandbox
import Mathlib.Algebra.Group.Nat.Defs

/-!
# Regions of linear memory

A region is an address and a length. Reading a region that lies inside gives its bytes one by one,
and the four bytes in front of a result spell its length, the least significant byte first.
-/

namespace EngineHost

namespace Bytes

/-- The number that bytes spell, the least significant first. -/
def littleEndian : Bytes → Nat
  | [] => 0
  | b :: bs => b.toNat + 256 * littleEndian bs

/-- A byte string spells a number of at most eight bits a byte. -/
theorem littleEndian_lt (bs : Bytes) : littleEndian bs < 256 ^ bs.length := by
  induction bs with
  | nil => simp [littleEndian]
  | cons b bs ih =>
    have hbyte := b.toNat_lt
    rw [littleEndian, List.length_cons, Nat.pow_succ]
    omega

/-- One more byte below a word of at most 24 bits. -/
theorem toNat_shift_or {w : UInt32} (b : UInt8) (hw : w.toNat < 0x1000000) :
    ((w <<< 8) ||| b.toUInt32).toNat = b.toNat + 256 * w.toNat := by
  have hshift : (w <<< 8).toNat = w.toNat <<< 8 := by
    have hamount : (8 : UInt32).toNat % 32 = 8 := by decide
    rw [UInt32.toNat_shiftLeft, hamount, Nat.mod_eq_of_lt]
    rw [Nat.shiftLeft_eq]
    omega
  have hbyte := b.toNat_lt
  rw [UInt32.toNat_or, hshift, UInt8.toNat_toUInt32, ← Nat.shiftLeft_add_eq_or_of_lt (by omega),
    Nat.shiftLeft_eq]
  omega

/-- Up to four bytes fit into a word. -/
theorem toNat_toWord {bs : Bytes} (hlength : bs.length ≤ 4) :
    (toWord bs).toNat = littleEndian bs := by
  rw [toWord, List.take_of_length_le hlength]
  induction bs with
  | nil => rfl
  | cons b bs ih =>
    rw [List.length_cons] at hlength
    have hrest := ih (by omega)
    have hsmall : littleEndian bs < 0x1000000 :=
      calc littleEndian bs < 256 ^ bs.length := littleEndian_lt bs
        _ ≤ 256 ^ 3 := Nat.pow_le_pow_right (by omega) (by omega)
        _ = 0x1000000 := by decide
    rw [List.foldr_cons, toNat_shift_or b (by rw [hrest]; exact hsmall), hrest, littleEndian]

end Bytes

namespace LinearMemory

/-- The region from an address on lies inside. -/
def Holds (m : LinearMemory) (address length : Nat) : Prop := address + length ≤ m.size

instance (m : LinearMemory) (address length : Nat) : Decidable (m.Holds address length) :=
  inferInstanceAs (Decidable (_ ≤ _))

/-- The bytes of a region. -/
def region (m : LinearMemory) (address length : Nat) : Bytes :=
  (List.range length).map fun i => m.byteAt (address + i)

/-- The number of 32 bits at an address, the least significant byte first. -/
def wordAt (m : LinearMemory) (address : Nat) : Nat := Bytes.littleEndian (m.region address 4)

/-- A region has as many bytes as it is long. -/
@[simp] theorem length_region (m : LinearMemory) (address length : Nat) :
    (m.region address length).length = length := by
  simp [region]

/-- What lies inside can be fetched. -/
theorem fetch_of_holds {m : LinearMemory} {offset : UInt32} {length : Nat}
    (hinside : m.Holds offset.toNat length) :
    m.fetch offset length = .ok (m.region offset.toNat length) := by
  have hle : offset.toNat + length ≤ m.size := hinside
  simp [fetch, read?, hle, region]

/-- What does not lie inside is refused. -/
theorem fetch_of_not_holds {m : LinearMemory} {offset : UInt32} {length : Nat}
    (houtside : ¬m.Holds offset.toNat length) :
    m.fetch offset length = .error (.memoryAccess offset length m.size) := by
  have hlt : ¬offset.toNat + length ≤ m.size := houtside
  simp [fetch, read?, hlt]

/-- Bytes are not written where they do not lie inside, and only there. -/
theorem write?_eq_none_iff {m : LinearMemory} {address : Nat} {bytes : Bytes} :
    m.write? address bytes = none ↔ ¬m.Holds address bytes.length := by
  simp [write?, Holds]

/-- Bytes that are written lie inside. -/
theorem holds_of_write? {m written : LinearMemory} {address : Nat} {bytes : Bytes}
    (hwrite : m.write? address bytes = some written) : m.Holds address bytes.length := by
  apply Decidable.not_not.mp
  intro houtside
  rw [write?_eq_none_iff.mpr houtside] at hwrite
  cases hwrite

end LinearMemory

namespace Sandbox

variable {σ : Type}

/-- A payload that is read is the region behind the length, and that region lies inside. -/
theorem eq_region_of_payload {s : Sandbox σ} {result length : UInt32} {bytes : Bytes}
    (hpayload : s.payload result length = .ok bytes) :
    s.memory.Holds (result.toNat + lengthBytes) length.toNat ∧
      bytes = s.memory.region (result.toNat + lengthBytes) length.toNat := by
  unfold payload at hpayload
  split at hpayload
  case isFalse => cases hpayload
  case isTrue hsmall =>
    have hstart : (result + UInt32.ofNat lengthBytes).toNat = result.toNat + lengthBytes := by
      rw [UInt32.toNat_add, UInt32.toNat_ofNat', Nat.add_mod_mod, Nat.mod_eq_of_lt hsmall]
    by_cases hinside : s.memory.Holds (result.toNat + lengthBytes) length.toNat
    · rw [LinearMemory.fetch_of_holds (by rwa [hstart]), hstart] at hpayload
      exact ⟨hinside, (Except.ok.inj hpayload).symm⟩
    · rw [LinearMemory.fetch_of_not_holds (by rwa [hstart])] at hpayload
      cases hpayload

/-- The length of a payload that is read leaves room for its own four bytes in 32 bits, because
the region lies inside and does not start at address zero. -/
theorem length_lt_of_payload {s : Sandbox σ} {result length : UInt32} {bytes : Bytes}
    (hresult : result ≠ 0) (hpayload : s.payload result length = .ok bytes) :
    length.toNat + lengthBytes < 0x100000000 := by
  have hinside : result.toNat + lengthBytes + length.toNat ≤ s.memory.size :=
    (eq_region_of_payload hpayload).1
  have hsize := s.memory.size_le
  have hpos : result.toNat ≠ 0 := fun hzero => hresult (UInt32.toNat_inj.mp hzero)
  omega

end Sandbox

end EngineHost
