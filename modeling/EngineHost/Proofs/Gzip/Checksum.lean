import EngineHost.Gzip.Checksum
import Mathlib

/-!
# The checksum as a remainder

A bit string is a polynomial over the field of two elements, the first bit being the coefficient of
the highest power. The checksum of a message is the complement of a remainder: the message, with its
first 32 bits inverted and followed by 32 zeros, is divided by a fixed polynomial of degree 32. The
first bit of the remainder is the least significant one of the checksum. Each step of the check
multiplies the register by `X`, up to a multiple of the divisor, so the register stays congruent to
the part of the message that it has seen.
-/

namespace EngineHost.Gzip

open Polynomial

/-- A bit as an element of the field of two elements. -/
def coefficient (bit : Bool) : ZMod 2 := if bit then 1 else 0

/-- The polynomial of a bit string. -/
noncomputable def polynomial : List Bool → (ZMod 2)[X]
  | [] => 0
  | bit :: bits => C (coefficient bit) * X ^ bits.length + polynomial bits

/-- The polynomial by which messages are divided. -/
noncomputable def generator : (ZMod 2)[X] :=
  X ^ 32 + X ^ 26 + X ^ 23 + X ^ 22 + X ^ 16 + X ^ 12 + X ^ 11 + X ^ 10 + X ^ 8 + X ^ 7 + X ^ 5 +
    X ^ 4 + X ^ 2 + X + 1

/-- The lowest bits of a number, the least significant first. -/
def lowBits (count n : Nat) : List Bool := (List.range count).map n.testBit

/-- The bits of a byte string, those of each byte from the least significant on. -/
def messageBits (bs : Bytes) : List Bool := bs.flatMap fun b => lowBits 8 b.toNat

/-- The word `w` is the checksum of the message: the complement of the remainder that is left when
the message with its first 32 bits inverted, followed by 32 zeros, is divided by the generator. -/
def IsChecksum (bs : Bytes) (w : UInt32) : Prop :=
  polynomial (lowBits 32 (~~~w).toNat) =
    (X ^ 32 * polynomial (messageBits bs) +
      X ^ (8 * bs.length) * polynomial (List.replicate 32 true)) %ₘ generator

/-! ### Polynomials of bit strings -/

/-- The exclusive or of bits is the sum of their coefficients. -/
theorem coefficient_xor (a b : Bool) :
    coefficient (a ^^ b) = coefficient a + coefficient b := by
  cases a <;> cases b <;> decide

/-- Bits are known by their coefficients. -/
theorem coefficient_injective : Function.Injective coefficient := by decide

/-- The polynomial of two bit strings in a row shifts the first by the length of the second. -/
theorem polynomial_append (front back : List Bool) :
    polynomial (front ++ back) = X ^ back.length * polynomial front + polynomial back := by
  induction front with
  | nil => simp [polynomial]
  | cons bit front ih =>
    rw [List.cons_append, polynomial, polynomial, ih, List.length_append, pow_add]
    ring

/-- Zero bits have the polynomial zero. -/
theorem polynomial_zeros (count : Nat) : polynomial (List.replicate count false) = 0 := by
  induction count with
  | zero => rfl
  | succ count ih => simp [List.replicate_succ, polynomial, coefficient, ih]

/-- The degree of a polynomial is below the number of its bits. -/
theorem degree_polynomial_lt (bits : List Bool) : (polynomial bits).degree < bits.length := by
  induction bits with
  | nil => simp [polynomial]
  | cons bit bits ih =>
    have hstep : ((bits.length : Nat) : WithBot Nat) < (bits.length + 1 : Nat) := by
      exact_mod_cast Nat.lt_succ_self bits.length
    rw [polynomial, List.length_cons]
    refine lt_of_le_of_lt (degree_add_le _ _) (max_lt ?_ (ih.trans hstep))
    exact lt_of_le_of_lt (degree_C_mul_X_pow_le _ _) hstep

/-- Exclusive or is addition. -/
theorem polynomial_xor {as bs : List Bool} (hlength : as.length = bs.length) :
    polynomial (List.zipWith (· ^^ ·) as bs) = polynomial as + polynomial bs := by
  induction as generalizing bs with
  | nil =>
    cases bs with
    | nil => simp [polynomial]
    | cons b bs => cases hlength
  | cons a as ih =>
    cases bs with
    | nil => cases hlength
    | cons b bs =>
      have hrest : as.length = bs.length := Nat.succ.inj hlength
      have htail : (List.zipWith (· ^^ ·) as bs).length = bs.length := by simp [hrest]
      rw [List.zipWith_cons_cons, polynomial, polynomial, polynomial, ih hrest, htail, hrest,
        coefficient_xor, C_add]
      ring

/-- The bits of one length can be read off their polynomial. -/
theorem polynomial_injective {as bs : List Bool} (hlength : as.length = bs.length)
    (h : polynomial as = polynomial bs) : as = bs := by
  induction as generalizing bs with
  | nil =>
    cases bs with
    | nil => rfl
    | cons b bs => cases hlength
  | cons a as ih =>
    cases bs with
    | nil => cases hlength
    | cons b bs =>
      have hrest : as.length = bs.length := Nat.succ.inj hlength
      have hzero : ∀ bits : List Bool, bits.length = bs.length →
          (polynomial bits).coeff bs.length = 0 := by
        intro bits hbits
        apply coeff_eq_zero_of_degree_lt
        rw [← hbits]
        exact degree_polynomial_lt bits
      have hhead : a = b := by
        apply coefficient_injective
        have hcoeff := congrArg (coeff · bs.length) h
        simpa [polynomial, hzero as hrest, hzero bs rfl, hrest] using hcoeff
      subst hhead
      rw [polynomial, polynomial, hrest] at h
      rw [ih hrest (add_left_cancel h)]

/-! ### Bits of numbers -/

/-- As many bits are taken as were asked for. -/
theorem length_lowBits (count n : Nat) : (lowBits count n).length = count := by
  rw [lowBits, List.length_map, List.length_range]

/-- The lowest bit comes first, and the others are those of the half. -/
theorem lowBits_succ (count n : Nat) :
    lowBits (count + 1) n = n.testBit 0 :: lowBits count (n / 2) := by
  rw [lowBits, List.range_succ_eq_map, List.map_cons, List.map_map]
  refine congrArg (n.testBit 0 :: ·) (List.map_congr_left fun i _ => ?_)
  exact Nat.testBit_succ n i

/-- The bits of an exclusive or are the exclusive ors of the bits. -/
theorem lowBits_xor (count a b : Nat) :
    lowBits count (a ^^^ b) = List.zipWith (· ^^ ·) (lowBits count a) (lowBits count b) := by
  rw [lowBits, lowBits, lowBits, List.zipWith_map, List.zipWith_self]
  exact List.map_congr_left fun i _ => Nat.testBit_xor a b i

/-- A number has only zeros beyond its width. -/
theorem lowBits_add {width n : Nat} (hn : n < 2 ^ width) (count : Nat) :
    lowBits (width + count) n = lowBits width n ++ List.replicate count false := by
  rw [lowBits, lowBits, List.range_add, List.map_append, List.map_map]
  congr 1
  rw [List.eq_replicate_iff]
  refine ⟨by simp, fun bit hbit => ?_⟩
  obtain ⟨i, -, rfl⟩ := List.mem_map.mp hbit
  apply Nat.testBit_lt_two_pow
  exact lt_of_lt_of_le hn (Nat.pow_le_pow_right (by decide) (Nat.le_add_right width i))

/-- Numbers of so many bits are known by them. -/
theorem lowBits_injective {count a b : Nat} (ha : a < 2 ^ count) (hb : b < 2 ^ count)
    (h : lowBits count a = lowBits count b) : a = b := by
  apply Nat.eq_of_testBit_eq
  intro i
  by_cases hi : i < count
  · have hget := congrArg (·[i]?) h
    simpa [lowBits, hi] using hget
  · have hpow : 2 ^ count ≤ 2 ^ i := Nat.pow_le_pow_right (by decide) (by omega)
    rw [Nat.testBit_lt_two_pow (lt_of_lt_of_le ha hpow),
      Nat.testBit_lt_two_pow (lt_of_lt_of_le hb hpow)]

/-! ### The register -/

/-- The polynomial that the register of the check holds. -/
noncomputable def register (crc : UInt32) : (ZMod 2)[X] := polynomial (lowBits 32 crc.toNat)

/-- The polynomial of a register has a degree below 32. -/
theorem degree_register_lt (crc : UInt32) : (register crc).degree < 32 := by
  have hdegree := degree_polynomial_lt (lowBits 32 crc.toNat)
  rw [length_lowBits] at hdegree
  exact hdegree

/-- Registers are known by their polynomials. -/
theorem register_injective {a b : UInt32} (h : register a = register b) : a = b := by
  have hbits := polynomial_injective (by rw [length_lowBits, length_lowBits]) h
  exact UInt32.toNat_inj.mp (lowBits_injective a.toNat_lt b.toNat_lt hbits)

/-- The exclusive or of registers is the sum of their polynomials. -/
theorem register_xor (a b : UInt32) : register (a ^^^ b) = register a + register b := by
  rw [register, UInt32.toNat_xor, lowBits_xor, polynomial_xor]
  · rfl
  · rw [length_lowBits, length_lowBits]

/-- A byte is the beginning of the register. -/
theorem register_toUInt32 (b : UInt8) :
    register b.toUInt32 = X ^ 24 * polynomial (lowBits 8 b.toNat) := by
  have hbits : lowBits 32 b.toNat = lowBits 8 b.toNat ++ List.replicate 24 false :=
    lowBits_add b.toNat_lt 24
  rw [register, UInt8.toNat_toUInt32, hbits, polynomial_append, polynomial_zeros,
    List.length_replicate, add_zero]

/-- A shift multiplies the register by `X`, but for the bit that it drops. -/
theorem register_shiftRight (crc : UInt32) :
    X * register crc = register (crc >>> 1) + C (coefficient (crc.toNat.testBit 0)) * X ^ 32 := by
  have hhalf : (crc >>> 1).toNat = crc.toNat / 2 := by simp [Nat.shiftRight_one]
  have hbound : crc.toNat / 2 < 2 ^ 31 := by
    have := crc.toNat_lt
    omega
  have hbits : lowBits 32 (crc.toNat / 2) = lowBits 31 (crc.toNat / 2) ++ List.replicate 1 false :=
    lowBits_add hbound 1
  have hshift : register (crc >>> 1) = X * polynomial (lowBits 31 (crc.toNat / 2)) := by
    rw [register, hhalf, hbits, polynomial_append, polynomial_zeros, List.length_replicate,
      add_zero, pow_one]
  have hwhole : register crc =
      C (coefficient (crc.toNat.testBit 0)) * X ^ 31 + polynomial (lowBits 31 (crc.toNat / 2)) := by
    rw [register, lowBits_succ, polynomial, length_lowBits]
  rw [hshift, hwhole]
  ring

/-- The constant of the check holds the generator, but for its highest power. -/
theorem register_feedback : X ^ 32 + register 0xEDB88320 = generator := by
  have hbits : lowBits 32 (0xEDB88320 : UInt32).toNat =
      [false, false, false, false, false, true, false, false, true, true, false, false, false,
        false, false, true, false, false, false, true, true, true, false, true, true, false, true,
        true, false, true, true, true] := by decide
  rw [register, hbits, generator]
  simp only [polynomial, coefficient, if_true, Bool.false_eq_true, if_false, map_zero, map_one,
    zero_mul, zero_add, one_mul, List.length_cons, List.length_nil]
  ring

/-- The generator is monic. -/
theorem generator_monic : generator.Monic := by
  rw [← register_feedback]
  exact monic_X_pow_add (degree_register_lt _)

/-- The generator has degree 32. -/
theorem degree_generator : generator.degree = 32 := by
  rw [← register_feedback, degree_add_eq_left_of_degree_lt]
  · exact degree_X_pow 32
  · rw [degree_X_pow]
    exact degree_register_lt _

/-! ### What a step of the check does -/

/-- A step multiplies the register by `X`, and subtracts the generator if that exceeds it. -/
theorem register_checksumBit (crc : UInt32) :
    register (checksumBit crc) =
      X * register crc + C (coefficient (crc.toNat.testBit 0)) * generator := by
  have hlow : crc &&& 1 = 1 ↔ crc.toNat.testBit 0 = true := by
    rw [← UInt32.toNat_inj, UInt32.toNat_and, Nat.testBit_zero, decide_eq_true_iff]
    simp [Nat.and_one_is_mod]
  rw [register_shiftRight, ← register_feedback]
  by_cases hbit : crc.toNat.testBit 0 = true
  · -- The bit that is dropped stands for `X ^ 32`, and so does what the constant lacks.
    rw [checksumBit, if_pos (hlow.mpr hbit), register_xor, hbit]
    have hcancel := CharTwo.add_self_eq_zero (X ^ 32 : (ZMod 2)[X])
    simp only [coefficient, if_true, map_one, one_mul]
    linear_combination -hcancel
  · rw [checksumBit, if_neg (mt hlow.mp hbit), Bool.eq_false_iff.mpr hbit]
    simp [coefficient]

/-- Reduction by the generator. -/
noncomputable def residue : (ZMod 2)[X] →+* (ZMod 2)[X] ⧸ Ideal.span {generator} :=
  Ideal.Quotient.mk _

/-- The generator leaves no residue. -/
theorem residue_generator : residue generator = 0 :=
  Ideal.Quotient.eq_zero_iff_mem.mpr (Ideal.mem_span_singleton_self generator)

/-- Steps of the register multiply its residue by as many powers of `X`. -/
theorem residue_checksumBits (count : Nat) (crc : UInt32) :
    residue (register (Nat.repeat checksumBit count crc)) = residue (X ^ count * register crc) := by
  induction count with
  | zero => simp [Nat.repeat]
  | succ count ih =>
    rw [Nat.repeat, register_checksumBit, map_add, map_mul, map_mul, ih, residue_generator,
      mul_zero, add_zero, ← map_mul, pow_succ', mul_assoc]

/-- A byte shifts what the register has seen by eight bits and adds its own. -/
theorem residue_checksumByte (crc : UInt32) (b : UInt8) :
    residue (register (checksumByte crc b)) =
      residue (X ^ 8 * register crc + X ^ 32 * polynomial (lowBits 8 b.toNat)) := by
  rw [checksumByte, residue_checksumBits, register_xor, register_toUInt32]
  refine congrArg residue ?_
  ring

/-- A message has eight bits a byte. -/
theorem length_messageBits (bs : Bytes) : (messageBits bs).length = 8 * bs.length := by
  simp [messageBits, length_lowBits, List.length_flatMap, mul_comm]

/-- The register is congruent to what it started with followed by the message. -/
theorem residue_foldl (bs : Bytes) (crc : UInt32) :
    residue (register (bs.foldl checksumByte crc)) =
      residue (X ^ 32 * polynomial (messageBits bs) + X ^ (8 * bs.length) * register crc) := by
  induction bs generalizing crc with
  | nil => simp [messageBits, polynomial]
  | cons b bs ih =>
    have hbits : messageBits (b :: bs) = lowBits 8 b.toNat ++ messageBits bs := rfl
    rw [List.foldl_cons, ih, map_add, map_mul _ (X ^ (8 * bs.length)), residue_checksumByte,
      ← map_mul, ← map_add, hbits, polynomial_append, length_messageBits, List.length_cons]
    refine congrArg residue ?_
    ring

/-- A polynomial below the degree of the generator is the remainder of those congruent to it. -/
theorem modByMonic_generator {p q : (ZMod 2)[X]} (hdegree : p.degree < 32)
    (h : residue p = residue q) : q %ₘ generator = p := by
  have hself : p %ₘ generator = p := by
    rw [modByMonic_eq_self_iff generator_monic, degree_generator]
    exact hdegree
  rw [← hself]
  apply modByMonic_eq_of_dvd_sub generator_monic
  rw [← Ideal.mem_span_singleton, ← Ideal.Quotient.eq]
  exact h.symm

/-- The complement of the checksum is the register after the last byte. -/
theorem compl_checksum (bs : Bytes) :
    ~~~checksum bs = bs.foldl checksumByte 0xFFFFFFFF := by
  have hones : (0xFFFFFFFF : UInt32) = -1 := by decide
  rw [checksum, hones]
  simp

/-- Each byte string has one checksum, and the check computes it. -/
theorem isChecksum_iff (bs : Bytes) (w : UInt32) : IsChecksum bs w ↔ w = checksum bs := by
  have hbits : lowBits 32 (0xFFFFFFFF : UInt32).toNat = List.replicate 32 true := by decide
  have hones : register 0xFFFFFFFF = polynomial (List.replicate 32 true) := by
    rw [register, hbits]
  have hremainder := modByMonic_generator (degree_register_lt _) (residue_foldl bs 0xFFFFFFFF)
  rw [hones, ← compl_checksum] at hremainder
  rw [IsChecksum, hremainder]
  constructor
  · intro h
    exact UInt32.not_inj.mp (register_injective h)
  · rintro rfl
    rfl

example : checksum [0x31, 0x32, 0x33, 0x34, 0x35, 0x36, 0x37, 0x38, 0x39] = 0xCBF43926 := by
  decide +kernel

end EngineHost.Gzip
