import EngineHost.Proofs.Json.Spelling
import EngineHost.Word
import Mathlib.Data.List.Forall2

/-!
# Hexadecimal spellings

A byte string in hexadecimal has digits of either case, a word may carry a mark in front, and a
slot may leave out leading zeros. Main statements: a byte string is read from its digits and from
nothing else, and a word is parsed from each of its names, of which its own text is one.
-/

namespace EngineHost

namespace Hex

/-- The ASCII byte of a digit value, in upper case. -/
def upperDigitByte (d : UInt8) : UInt8 := if d < 10 then d + 48 else d + 55

/-- A byte is the hexadecimal digit of this value, in either case. -/
def IsDigit (b d : UInt8) : Prop := d < 16 ∧ (b = digitByte d ∨ b = upperDigitByte d)

instance (b d : UInt8) : Decidable (IsDigit b d) :=
  inferInstanceAs (Decidable (d < 16 ∧ (b = digitByte d ∨ b = upperDigitByte d)))

/-- The digit values of a byte string, two a byte. -/
def digitValues (bs : Bytes) : Bytes := bs.flatMap fun b => [b / 16, b % 16]

/-- A byte string as a text of ASCII characters. -/
def asciiText (bs : Bytes) : String := String.ofList (bs.map fun b => Char.ofNat b.toNat)

/-- The marks that may stand in front of hexadecimal digits. -/
def marks : List String := ["", "0x", "0X"]

/-- What is true of the sixteen digits in both cases is true of every digit. -/
theorem IsDigit.induction {p : UInt8 → UInt8 → Prop} {b d : UInt8} (h : IsDigit b d)
    (hall : ∀ n < 16, p (digitByte (UInt8.ofNat n)) (UInt8.ofNat n) ∧
      p (upperDigitByte (UInt8.ofNat n)) (UInt8.ofNat n)) : p b d := by
  obtain ⟨hd, hb⟩ := h
  have hdigit := hall d.toNat hd
  rw [UInt8.ofNat_toNat] at hdigit
  rcases hb with rfl | rfl
  · exact hdigit.1
  · exact hdigit.2

/-- A hexadecimal digit of either case spells its value. -/
theorem digit?_of_isDigit {b d : UInt8} (h : IsDigit b d) : digit? b = some d :=
  h.induction (p := fun b d => digit? b = some d) (by decide)

/-- A byte that is read as a digit is one. -/
theorem isDigit_of_digit? {b d : UInt8} (h : digit? b = some d) : IsDigit b d := by
  have hall : ∀ n < 256, ∀ d ∈ digit? (UInt8.ofNat n), IsDigit (UInt8.ofNat n) d := by
    decide +kernel
  have hb := hall b.toNat b.toNat_lt d
  rw [UInt8.ofNat_toNat] at hb
  exact hb h

/-- Hexadecimal digits are ASCII, and none is the letter of a mark. -/
theorem ascii_of_isDigit {b d : UInt8} (h : IsDigit b d) : b < 128 ∧ b ≠ 120 ∧ b ≠ 88 :=
  h.induction (p := fun b _ => b < 128 ∧ b ≠ 120 ∧ b ≠ 88) (by decide)

/-- The digit of the upper half of a byte. -/
theorem isDigit_high (b : UInt8) : IsDigit (digitByte (b / 16)) (b / 16) := by
  refine ⟨?_, .inl rfl⟩
  have hb := b.toNat_lt
  change (b / 16).toNat < 16
  rw [UInt8.toNat_div]
  change b.toNat / 16 < 16
  omega

/-- The digit of the lower half of a byte. -/
theorem isDigit_low (b : UInt8) : IsDigit (digitByte (b % 16)) (b % 16) := by
  refine ⟨?_, .inl rfl⟩
  change (b % 16).toNat < 16
  rw [UInt8.toNat_mod]
  exact Nat.mod_lt _ (by decide)

/-- The bytes of an encoding are the digits of the byte string. -/
theorem isDigit_encodeBytes (bs : Bytes) :
    List.Forall₂ IsDigit (encodeBytes bs) (digitValues bs) := by
  induction bs with
  | nil => exact .nil
  | cons b bs ih => exact .cons (isDigit_high b) (.cons (isDigit_low b) ih)

/-- Digits are ASCII. -/
theorem ascii_of_mem {digits ds : Bytes} (h : List.Forall₂ IsDigit digits ds) {b : UInt8}
    (hb : b ∈ digits) : b < 128 := by
  induction h with
  | nil => cases hb
  | cons hdigit _ ih =>
    rcases List.mem_cons.mp hb with rfl | htail
    · exact (ascii_of_isDigit hdigit).1
    · exact ih htail

/-- Leading zeros. -/
theorem isDigit_replicate (count : Nat) :
    List.Forall₂ IsDigit (List.replicate count 48) (List.replicate count 0) := by
  induction count with
  | zero => exact .nil
  | succ count ih => exact .cons ⟨by decide, .inl rfl⟩ ih

/-- A byte string has two digits a byte. -/
theorem length_digitValues (bs : Bytes) : (digitValues bs).length = 2 * bs.length := by
  induction bs with
  | nil => rfl
  | cons b bs ih =>
    simp only [digitValues, List.flatMap_cons, List.length_append, List.length_cons] at ih ⊢
    rw [ih, List.length_nil]
    omega

/-- Digits are read back as the bytes that they stand for. -/
theorem pairs_of_isDigit {digits bs : Bytes} (h : List.Forall₂ IsDigit digits (digitValues bs))
    (index : Nat) : pairs index digits = .ok bs := by
  induction bs generalizing digits index with
  | nil =>
    cases h
    rfl
  | cons b bs ih =>
    cases h with
    | cons hhigh htail =>
      cases htail with
      | cons hlow hrest =>
        have hjoin : b / 16 * 16 + b % 16 = b := by
          apply UInt8.toNat_inj.mp
          have hb := b.toNat_lt
          simp only [UInt8.toNat_add, UInt8.toNat_mul, UInt8.toNat_div, UInt8.toNat_mod]
          change (b.toNat / 16 * 16 % 256 + b.toNat % 16) % 256 = b.toNat
          omega
        rw [pairs, digit?_of_isDigit hhigh, digit?_of_isDigit hlow]
        simp only [ih hrest (index + 2), hjoin]

/-- The halves of a byte that two digits make are the digits. -/
theorem halves_of_digits {high low : UInt8} (hhigh : high < 16) (hlow : low < 16) :
    (high * 16 + low) / 16 = high ∧ (high * 16 + low) % 16 = low := by
  have hhigh' : high.toNat < 16 := hhigh
  have hlow' : low.toNat < 16 := hlow
  have hbyte : (high * 16 + low).toNat = high.toNat * 16 + low.toNat := by
    simp only [UInt8.toNat_add, UInt8.toNat_mul]
    change (high.toNat * 16 % 256 + low.toNat) % 256 = high.toNat * 16 + low.toNat
    omega
  constructor
  · apply UInt8.toNat_inj.mp
    rw [UInt8.toNat_div, hbyte]
    change (high.toNat * 16 + low.toNat) / 16 = high.toNat
    omega
  · apply UInt8.toNat_inj.mp
    rw [UInt8.toNat_mod, hbyte]
    change (high.toNat * 16 + low.toNat) % 16 = low.toNat
    omega

/-- What is read in pairs, with no digit left over, are the digits of the bytes. -/
theorem isDigit_of_pairs {index : Nat} {digits bs : Bytes} (h : pairs index digits = .ok bs)
    (heven : digits.length % 2 = 0) : List.Forall₂ IsDigit digits (digitValues bs) := by
  fun_induction pairs index digits generalizing bs with
  | case1 => cases h
  | case2 => cases h
  | case3 => cases h
  | case4 index high low rest hd ld hlow hhigh tail htail ih =>
    cases h
    have hrest : rest.length % 2 = 0 := by
      simp only [List.length_cons] at heven
      omega
    have hhigh' := isDigit_of_digit? hhigh
    have hlow' := isDigit_of_digit? hlow
    obtain ⟨hdiv, hmod⟩ := halves_of_digits hhigh'.1 hlow'.1
    rw [digitValues, List.flatMap_cons, hdiv, hmod]
    exact .cons hhigh' (.cons hlow' (ih htail hrest))
  | case5 digits index hshort =>
    cases h
    rcases digits with _ | ⟨b, _ | ⟨c, rest⟩⟩
    · exact .nil
    · cases heven
    · exact absurd rfl (hshort b c rest)

/-- Text that spells a byte string: two digits a byte, behind a mark and between blanks if there are
any. -/
def Spells (s : String) (bs : Bytes) : Prop :=
  List.Forall₂ IsDigit (Bytes.ofText (stripMark (Text.trim s))) (digitValues bs)

/-- A byte string is read from its digits, and from nothing else. -/
theorem decode_eq_ok_iff {digits bs : Bytes} :
    decode digits = .ok bs ↔ List.Forall₂ IsDigit digits (digitValues bs) := by
  unfold decode
  constructor
  · intro h
    split at h
    case isTrue => cases h
    case isFalse hodd => exact isDigit_of_pairs h (by omega)
  · intro h
    have hlength := h.length_eq
    have hvalues := length_digitValues bs
    have heven : ¬digits.length % 2 = 1 := by omega
    rw [if_neg heven]
    exact pairs_of_isDigit h 0

/-- A text is read as a byte string just in case it spells it. -/
theorem parse_eq_ok_iff {s : String} {bs : Bytes} : parse s = .ok bs ↔ Spells s bs :=
  decode_eq_ok_iff

/-- The character of an ASCII byte has its code. -/
theorem toNat_ofNat_of_ascii {b : UInt8} (hb : b < 128) :
    (Char.ofNat b.toNat).toNat = b.toNat := by
  have hall : ∀ n < 128, (Char.ofNat n).toNat = n := by decide
  exact hall b.toNat hb

/-- The bytes of an ASCII text. -/
theorem ofText_asciiText {bs : Bytes} (h : ∀ b ∈ bs, b < 128) :
    Bytes.ofText (asciiText bs) = bs := by
  rw [asciiText, Bytes.ofText_ofList]
  induction bs with
  | nil => rfl
  | cons b bs ih =>
    have hb : b < 128 := h b (List.mem_cons_self ..)
    rw [List.map_cons, List.flatMap_cons,
      Json.utf8EncodeChar_of_ascii hb (toNat_ofNat_of_ascii hb),
      ih fun c hc => h c (List.mem_cons_of_mem b hc)]
    rfl

/-- A text without a mark keeps its digits. -/
theorem stripMark_asciiText {digits ds : Bytes} (h : List.Forall₂ IsDigit digits ds) :
    stripMark (asciiText digits) = asciiText digits := by
  have hletters : ∀ b : UInt8, b < 128 ∧ b ≠ 120 ∧ b ≠ 88 →
      Char.ofNat b.toNat ≠ 'x' ∧ Char.ofNat b.toNat ≠ 'X' := by
    rintro b ⟨hb, hx, hX⟩
    have hnat := toNat_ofNat_of_ascii hb
    constructor
    · intro hc
      rw [hc] at hnat
      exact hx (UInt8.toNat_inj.mp hnat.symm)
    · intro hc
      rw [hc] at hnat
      exact hX (UInt8.toNat_inj.mp hnat.symm)
  rw [stripMark, asciiText, String.toList_ofList]
  cases h with
  | nil => rfl
  | cons _ htail =>
    cases htail with
    | nil =>
      simp only [List.map_cons, List.map_nil]
      split <;> simp_all
    | cons hsecond _ =>
      have hsecond' := hletters _ (ascii_of_isDigit hsecond)
      simp only [List.map_cons]
      split <;> simp_all

/-- A mark is taken off. -/
theorem stripMark_mark {mark : String} (hmark : mark ∈ marks) {digits ds : Bytes}
    (h : List.Forall₂ IsDigit digits ds) :
    stripMark (mark ++ asciiText digits) = asciiText digits := by
  simp only [marks, List.mem_cons, List.not_mem_nil, or_false] at hmark
  rcases hmark with rfl | rfl | rfl
  · rw [String.empty_append]
    exact stripMark_asciiText h
  · simp [stripMark, asciiText]
  · simp [stripMark, asciiText]

end Hex

namespace Word

/-- The texts that name a word: its digits in either case, with or without a mark. Where names may
be short, leading zeros may be left out, but not all digits. -/
def Named {width : Nat} (short : Bool) (w : Word width) (s : String) : Prop :=
  ∃ mark ∈ Hex.marks, ∃ (dropped : Nat) (ds digits : Bytes),
    Hex.digitValues w.bytes = List.replicate dropped 0 ++ ds ∧ ds ≠ [] ∧
      (dropped = 0 ∨ short = true) ∧ List.Forall₂ Hex.IsDigit digits ds ∧
      s = mark ++ Hex.asciiText digits

/-- Filled up with zeros, the digits of a name are those of the whole word. -/
theorem ofText_fill {digits ds : Bytes} (hdigits : List.Forall₂ Hex.IsDigit digits ds)
    {dropped count : Nat} (hcount : dropped + ds.length = count) :
    Bytes.ofText (fill count (Hex.asciiText digits)) = List.replicate dropped 48 ++ digits := by
  have hlength := hdigits.length_eq
  have hzeros : List.replicate dropped '0' ++ digits.map (fun b => Char.ofNat b.toNat) =
      (List.replicate dropped 48 ++ digits).map fun b : UInt8 => Char.ofNat b.toNat := by
    rw [List.map_append, List.map_replicate]
    rfl
  have hmissing : count - digits.length = dropped := by omega
  have hascii : ∀ b ∈ List.replicate dropped 48 ++ digits, b < 128 := by
    intro b hb
    rcases List.mem_append.mp hb with hzero | hdigit
    · rw [List.eq_of_mem_replicate hzero]
      decide
    · exact Hex.ascii_of_mem hdigits hdigit
  rw [fill, Hex.asciiText, String.toList_ofList, List.length_map, hmissing, hzeros]
  exact Hex.ofText_asciiText hascii

/-- A word is parsed from each of its names. -/
theorem parse_of_named {width : Nat} {short : Bool} {w : Word width} {s : String}
    (hnamed : w.Named short s) : parse width short s = .ok w := by
  obtain ⟨mark, hmark, dropped, ds, digits, hvalues, hne, hshort, hdigits, rfl⟩ := hnamed
  have hlength := hdigits.length_eq
  have htotal : dropped + ds.length = 2 * width := by
    have hvaluesLength := Hex.length_digitValues w.bytes
    rw [hvalues, w.length_eq, List.length_append, List.length_replicate] at hvaluesLength
    exact hvaluesLength
  have hpositive : 0 < ds.length := List.length_pos_of_ne_nil hne
  have hactual : (Bytes.ofText (Hex.asciiText digits)).length = ds.length := by
    rw [Hex.ofText_asciiText fun b hb => Hex.ascii_of_mem hdigits hb, hlength]
  have hallowed : ¬(ds.length = 0 ∨ 2 * width < ds.length ∨
      (short = false ∧ ds.length ≠ 2 * width)) := by
    rintro (hzero | hlong | ⟨hnever, hother⟩)
    · omega
    · omega
    · rcases hshort with hfull | hshort
      · omega
      · rw [hshort] at hnever
        cases hnever
  have hfull : List.Forall₂ Hex.IsDigit (List.replicate dropped 48 ++ digits)
      (Hex.digitValues w.bytes) := by
    rw [hvalues]
    exact List.rel_append (Hex.isDigit_replicate dropped) hdigits
  have hstrip := Hex.stripMark_mark hmark hdigits
  have hdecode : Hex.decodeWidth width (Bytes.ofText (fill (2 * width)
      (Hex.stripMark (mark ++ Hex.asciiText digits)))) = .ok w.bytes := by
    have hfullLength : (List.replicate dropped (48 : UInt8) ++ digits).length = 2 * width := by
      rw [List.length_append, List.length_replicate, hlength, htotal]
    have hodd : ¬2 * width % 2 = 1 := by omega
    have hwidth : ¬2 * width / 2 ≠ width := by omega
    rw [hstrip, ofText_fill hdigits htotal, Hex.decodeWidth, hfullLength, if_neg hodd,
      if_neg hwidth]
    exact Hex.pairs_of_isDigit hfull 0
  unfold parse
  simp only [hstrip, hactual, if_neg hallowed]
  split
  · rename_i fault hfault
    rw [hdecode] at hfault
    cases hfault
  · rename_i bytes hbytes
    rw [hdecode] at hbytes
    cases hbytes
    rfl

/-- A word is named by its own text. -/
theorem named_text {width : Nat} (hwidth : 0 < width) (short : Bool) (w : Word width) :
    w.Named short w.text := by
  have hdigits : Hex.digitValues w.bytes ≠ [] := by
    have hlength := Hex.length_digitValues w.bytes
    rw [w.length_eq] at hlength
    apply List.ne_nil_of_length_pos
    omega
  refine ⟨"", by decide, 0, Hex.digitValues w.bytes, Hex.encodeBytes w.bytes, rfl, hdigits,
    .inl rfl, Hex.isDigit_encodeBytes w.bytes, ?_⟩
  rw [String.empty_append]
  rfl

end Word

end EngineHost
