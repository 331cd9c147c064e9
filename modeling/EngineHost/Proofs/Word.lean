import EngineHost.Proofs.Hex
import Mathlib.Data.List.Induction
import Mathlib.Data.Nat.Digits.Defs

/-!
# Words and the numbers that name them

A text denotes a number in base 16 if nothing but hexadecimal digits, of either case, is left of it
without its mark. A word is parsed from the texts that denote a number and have the right count of
digits, and it then holds the bytes of that number, the most significant first. The length of a text
is tested in bytes and its filling counted in characters; the two agree because a character beyond
ASCII has no byte that is a digit.
-/

namespace EngineHost

namespace Hex

/-- A character is the hexadecimal digit of this value, in either case. -/
def CharDigit (c : Char) (d : Nat) : Prop := d < 16 ∧ (c = d.digitChar ∨ c = d.digitChar.toUpper)

instance (c : Char) (d : Nat) : Decidable (CharDigit c d) :=
  inferInstanceAs (Decidable (d < 16 ∧ (c = d.digitChar ∨ c = d.digitChar.toUpper)))

/-- The text `s` less one mark in front, if it has one, is `d`. -/
def Unmarked (s d : String) : Prop :=
  s = "0x" ++ d ∨ s = "0X" ++ d ∨ (s = d ∧ ∀ rest, s ≠ "0x" ++ rest ∧ s ≠ "0X" ++ rest)

/-- The number that digit values spell in base 16, the most significant first. -/
def number (ds : List Nat) : Nat := Nat.ofDigits 16 ds.reverse

/-- A text that denotes a number with at least `least` and at most `most` digits. -/
def Denotes (least most : Nat) (s : String) (n : Nat) : Prop :=
  ∃ d ds, Unmarked s d ∧ List.Forall₂ CharDigit d.toList ds ∧ least ≤ ds.length ∧
    ds.length ≤ most ∧ n = number ds

/-! ### Digits of a text -/

/-- A text can be split where its characters can. -/
theorem eq_append_of_toList {s : String} (cs : List Char) {rest : List Char}
    (hs : s.toList = cs ++ rest) :
    s = String.ofList cs ++ String.ofList rest := by
  rw [← String.ofList_append, ← hs, String.ofList_toList]

/-- What is left of a text without its mark is what `stripMark` leaves. -/
theorem unmarked_iff {s d : String} : Unmarked s d ↔ stripMark s = d := by
  constructor
  · rintro (rfl | rfl | ⟨rfl, hnone⟩)
    · simp [stripMark]
    · simp [stripMark]
    · unfold stripMark
      split
      case h_1 rest hs => exact absurd (eq_append_of_toList ['0', 'x'] hs) (hnone _).1
      case h_2 rest hs => exact absurd (eq_append_of_toList ['0', 'X'] hs) (hnone _).2
      case h_3 => rfl
  · rintro rfl
    unfold stripMark
    split
    case h_1 rest hs => exact .inl (eq_append_of_toList ['0', 'x'] hs)
    case h_2 rest hs => exact .inr (.inl (eq_append_of_toList ['0', 'X'] hs))
    case h_3 hx hX =>
      refine .inr (.inr ⟨rfl, fun rest => ⟨?_, ?_⟩⟩)
      · rintro rfl
        exact hx rest.toList (by simp)
      · rintro rfl
        exact hX rest.toList (by simp)

/-- A digit is a single ASCII byte that is the digit of the same value. -/
theorem CharDigit.utf8EncodeChar {c : Char} {d : Nat} (hc : CharDigit c d) :
    c.toNat < 128 ∧ ∃ b, String.utf8EncodeChar c = [b] ∧ IsDigit b (UInt8.ofNat d) := by
  have hlower : ∀ d < 16, d.digitChar.toNat < 128 ∧
      IsDigit (UInt8.ofNat d.digitChar.toNat) (UInt8.ofNat d) := by decide
  have hupper : ∀ d < 16, d.digitChar.toUpper.toNat < 128 ∧
      IsDigit (UInt8.ofNat d.digitChar.toUpper.toNat) (UInt8.ofNat d) := by decide
  obtain ⟨hd, hc⟩ := hc
  obtain ⟨hascii, hdigit⟩ : c.toNat < 128 ∧ IsDigit (UInt8.ofNat c.toNat) (UInt8.ofNat d) := by
    rcases hc with rfl | rfl
    · exact hlower d hd
    · exact hupper d hd
  have hbyte : c.toNat = (UInt8.ofNat c.toNat).toNat := by
    rw [UInt8.toNat_ofNat']
    omega
  have hlt : UInt8.ofNat c.toNat < 128 := by
    change (UInt8.ofNat c.toNat).toNat < 128
    omega
  exact ⟨hascii, _, Json.utf8EncodeChar_of_ascii hlt hbyte, hdigit⟩

/-- The character of a byte that is a digit is that digit. -/
theorem charDigit_of_isDigit {c : Char} {b d : UInt8} (hc : c.toNat = b.toNat)
    (hb : IsDigit b d) : CharDigit c d.toNat := by
  have hchar : CharDigit (Char.ofNat b.toNat) d.toNat :=
    hb.induction (p := fun b d => CharDigit (Char.ofNat b.toNat) d.toNat) (by decide)
  rwa [← hc, Char.ofNat_toNat] at hchar

/-- The bytes of a text are digits exactly if its characters are: a character beyond ASCII has no
byte that is a digit. -/
theorem forall₂_isDigit_iff {cs : List Char} {ds : Bytes} :
    List.Forall₂ IsDigit (cs.flatMap String.utf8EncodeChar) ds ↔
      List.Forall₂ CharDigit cs (ds.map UInt8.toNat) := by
  constructor
  · intro h
    induction cs generalizing ds with
    | nil =>
      cases h
      exact .nil
    | cons c cs ih =>
      rw [List.flatMap_cons] at h
      by_cases hascii : c.toNat < 128
      · have hbyte : c.toNat = (UInt8.ofNat c.toNat).toNat := by
          rw [UInt8.toNat_ofNat']
          omega
        have hlt : UInt8.ofNat c.toNat < 128 := by
          change (UInt8.ofNat c.toNat).toNat < 128
          omega
        rw [Json.utf8EncodeChar_of_ascii hlt hbyte] at h
        cases h with
        | cons hdigit hrest => exact .cons (charDigit_of_isDigit hbyte hdigit) (ih hrest)
      · obtain ⟨b, hb⟩ : ∃ b, b ∈ String.utf8EncodeChar c := by
          apply List.exists_mem_of_length_pos
          rw [String.length_utf8EncodeChar]
          exact c.utf8Size_pos
        have hlarge := Json.large_of_mem_utf8EncodeChar (by omega) hb
        have hsmall := ascii_of_mem h (List.mem_append_left _ hb)
        exact absurd hsmall (UInt8.not_lt.mpr hlarge)
  · intro h
    induction cs generalizing ds with
    | nil =>
      cases ds with
      | nil => exact .nil
      | cons d ds => cases h
    | cons c cs ih =>
      cases ds with
      | nil => cases h
      | cons d ds =>
        cases h with
        | cons hdigit hrest =>
          obtain ⟨-, b, hbytes, hb⟩ := hdigit.utf8EncodeChar
          rw [UInt8.ofNat_toNat] at hb
          rw [List.flatMap_cons, hbytes]
          exact .cons hb (ih hrest)

/-- A text of digits has one byte for each of them. -/
theorem length_utf8_of_forall₂ {cs : List Char} {ds : List Nat}
    (h : List.Forall₂ CharDigit cs ds) :
    (cs.flatMap String.utf8EncodeChar).length = ds.length := by
  induction h with
  | nil => rfl
  | cons hdigit _ ih =>
    obtain ⟨-, b, hbytes, -⟩ := hdigit.utf8EncodeChar
    rw [List.flatMap_cons, hbytes, List.length_append, ih, List.length_singleton, List.length_cons]
    omega

/-- Digits are below sixteen. -/
theorem lt_sixteen_of_mem {cs : List Char} {ds : List Nat} (h : List.Forall₂ CharDigit cs ds)
    {d : Nat} (hd : d ∈ ds) : d < 16 := by
  induction h with
  | nil => cases hd
  | cons hdigit _ ih =>
    rcases List.mem_cons.mp hd with rfl | hrest
    · exact hdigit.1
    · exact ih hrest

/-- Digits are ASCII characters. -/
theorem ascii_of_mem_chars {cs : List Char} {ds : List Nat} (h : List.Forall₂ CharDigit cs ds)
    {c : Char} (hc : c ∈ cs) : c.toNat < 128 := by
  induction h with
  | nil => cases hc
  | cons hdigit _ ih =>
    rcases List.mem_cons.mp hc with rfl | hrest
    · exact hdigit.utf8EncodeChar.1
    · exact ih hrest

/-- The character `0` is the digit zero, however often. -/
theorem forall₂_zeros (count : Nat) :
    List.Forall₂ CharDigit (List.replicate count '0') (List.replicate count 0) := by
  induction count with
  | zero => exact .nil
  | succ count ih => exact .cons (by decide) ih

/-- The characters `0` are no other digits than zeros. -/
theorem eq_zeros_of_forall₂ {count : Nat} {ds : List Nat}
    (h : List.Forall₂ CharDigit (List.replicate count '0') ds) : ds = List.replicate count 0 := by
  have hzero : ∀ d < 16, CharDigit '0' d → d = 0 := by decide
  induction count generalizing ds with
  | zero =>
    cases h
    rfl
  | succ count ih =>
    cases h with
    | cons hdigit hrest => rw [hzero _ hdigit.1 hdigit, ih hrest, List.replicate_succ]

/-- A byte string of a given width is read from its digits, and from nothing else. -/
theorem decodeWidth_eq_ok_iff {width : Nat} {digits bs : Bytes} :
    decodeWidth width digits = .ok bs ↔
      bs.length = width ∧ List.Forall₂ IsDigit digits (digitValues bs) := by
  constructor
  · intro h
    refine ⟨length_decodeWidth h, ?_⟩
    unfold decodeWidth at h
    split at h
    case isTrue => cases h
    case isFalse hodd =>
      split at h
      case isTrue => cases h
      case isFalse => exact isDigit_of_pairs h (by omega)
  · rintro ⟨rfl, h⟩
    have hlength := h.length_eq
    have hvalues := length_digitValues bs
    have heven : ¬digits.length % 2 = 1 := by omega
    have hwidth : ¬digits.length / 2 ≠ bs.length := by omega
    rw [decodeWidth, if_neg heven, if_neg hwidth]
    exact pairs_of_isDigit h 0

/-- Every character of a text that denotes a number is ASCII, those of the mark included. -/
theorem Denotes.ascii {least most n : Nat} {s : String} (h : Denotes least most s n) {c : Char}
    (hc : c ∈ s.toList) : c.toNat < 128 := by
  obtain ⟨d, ds, hd, hds, -⟩ := h
  have hdigits : ∀ c ∈ d.toList, c.toNat < 128 := fun c hc => ascii_of_mem_chars hds hc
  rcases hd with rfl | rfl | ⟨rfl, -⟩
  · rw [String.toList_append, List.mem_append] at hc
    rcases hc with hmark | hdigit
    · have hmarks : "0x".toList.all (·.toNat < 128) = true := by decide
      simpa using List.all_eq_true.mp hmarks c hmark
    · exact hdigits c hdigit
  · rw [String.toList_append, List.mem_append] at hc
    rcases hc with hmark | hdigit
    · have hmarks : "0X".toList.all (·.toNat < 128) = true := by decide
      simpa using List.all_eq_true.mp hmarks c hmark
    · exact hdigits c hdigit
  · exact hdigits c hc

/-- Byte strings are written in lower-case digits, two a byte. -/
theorem toList_encode (bs : Bytes) :
    (encode bs).toList.length = 2 * bs.length ∧
      ∀ c ∈ (encode bs).toList, c ∈ "0123456789abcdef".toList := by
  have hdigit : ∀ d < 16, Char.ofNat (digitByte (UInt8.ofNat d)).toNat ∈
      "0123456789abcdef".toList := by decide
  have hchar : ∀ d : UInt8, d < 16 → Char.ofNat (digitByte d).toNat ∈
      "0123456789abcdef".toList := by
    intro d hd
    have hmem := hdigit d.toNat hd
    rwa [UInt8.ofNat_toNat] at hmem
  rw [encode, String.toList_ofList]
  constructor
  · rw [List.length_map, (isDigit_encodeBytes bs).length_eq, length_digitValues]
  · intro c hc
    obtain ⟨b, hb, rfl⟩ := List.mem_map.mp hc
    obtain ⟨byte, -, hhalf⟩ := List.mem_flatMap.mp hb
    simp only [List.mem_cons, List.not_mem_nil, or_false] at hhalf
    rcases hhalf with rfl | rfl
    · exact hchar _ (isDigit_high byte).1
    · exact hchar _ (isDigit_low byte).1

/-! ### Numbers and bytes -/

/-- So many digits spell a number below this power of sixteen. -/
theorem number_lt {ds : List Nat} (hds : ∀ d ∈ ds, d < 16) : number ds < 16 ^ ds.length := by
  have hlt := Nat.ofDigits_lt_base_pow_length (b := 16) (l := ds.reverse) (by decide) (by simpa)
  rwa [List.length_reverse] at hlt

/-- A last digit adds to sixteen times the number before it. -/
theorem number_concat (ds : List Nat) (d : Nat) : number (ds ++ [d]) = 16 * number ds + d := by
  rw [number, List.reverse_append, List.reverse_singleton, List.singleton_append, Nat.ofDigits_cons,
    number]
  omega

/-- A text with two digits a byte denotes a number of so many bytes. -/
theorem Denotes.lt {least width n : Nat} {s : String} (h : Denotes least (2 * width) s n) :
    n < 256 ^ width := by
  obtain ⟨d, ds, -, hds, -, hmost, rfl⟩ := h
  have hpower : 256 ^ width = 16 ^ (2 * width) := by rw [Nat.pow_mul]
  have hsmall : ∀ d ∈ ds, d < 16 := fun d hd => lt_sixteen_of_mem hds hd
  rw [hpower]
  exact Nat.lt_of_lt_of_le (number_lt hsmall) (Nat.pow_le_pow_right (by decide) hmost)

/-- Leading zeros do not count. -/
theorem number_zeros (count : Nat) (ds : List Nat) :
    number (List.replicate count 0 ++ ds) = number ds := by
  rw [number, List.reverse_append, List.reverse_replicate, Nat.ofDigits_append_replicate_zero,
    number]

/-- Digits of one length that spell the same number are the same. -/
theorem eq_of_number_eq {ds ds' : List Nat} (hlength : ds.length = ds'.length)
    (hds : ∀ d ∈ ds, d < 16) (hds' : ∀ d ∈ ds', d < 16) (heq : number ds = number ds') :
    ds = ds' := by
  apply List.reverse_injective
  exact Nat.ofDigits_inj_of_len_eq (by decide) (by simpa) (by simpa) (by simpa) heq

/-- The number that the digits of a byte string spell. -/
def byteNumber (bs : Bytes) : Nat := number ((digitValues bs).map UInt8.toNat)

/-- A last byte adds to 256 times the number before it. -/
theorem byteNumber_concat (bs : Bytes) (b : UInt8) :
    byteNumber (bs ++ [b]) = 256 * byteNumber bs + b.toNat := by
  have hsplit : (digitValues (bs ++ [b])).map UInt8.toNat =
      (digitValues bs).map UInt8.toNat ++ [b.toNat / 16] ++ [b.toNat % 16] := by
    simp [digitValues]
  rw [byteNumber, hsplit, number_concat, number_concat, byteNumber]
  omega

/-- The digits of a byte string are below sixteen. -/
theorem lt_sixteen_of_mem_digitValues {bs : Bytes} {d : Nat}
    (hd : d ∈ (digitValues bs).map UInt8.toNat) : d < 16 := by
  obtain ⟨v, hv, rfl⟩ := List.mem_map.mp hd
  obtain ⟨b, -, hb⟩ := List.mem_flatMap.mp hv
  have hlt := b.toNat_lt
  simp only [List.mem_cons, List.not_mem_nil, or_false] at hb
  rcases hb with rfl | rfl
  · rw [UInt8.toNat_div]
    change b.toNat / 16 < 16
    omega
  · rw [UInt8.toNat_mod]
    exact Nat.mod_lt _ (by decide)

/-- Byte strings are recovered from their numbers. -/
theorem bigEndian_byteNumber (bs : Bytes) : Bytes.bigEndian bs.length (byteNumber bs) = bs := by
  induction bs using List.reverseRecOn with
  | nil => rfl
  | append_singleton bs b ih =>
    have hb := b.toNat_lt
    have hdiv : (256 * byteNumber bs + b.toNat) / 256 = byteNumber bs := by omega
    have hlast : UInt8.ofNat (256 * byteNumber bs + b.toNat) = b := by
      refine UInt8.toNat_inj.mp ?_
      rw [UInt8.toNat_ofNat']
      omega
    rw [byteNumber_concat, List.length_append, List.length_singleton, Bytes.bigEndian, hdiv, hlast,
      ih]

/-- So many bytes are taken as were asked for. -/
theorem length_bigEndian (width n : Nat) : (Bytes.bigEndian width n).length = width := by
  induction width generalizing n with
  | zero => rfl
  | succ width ih => rw [Bytes.bigEndian, List.length_append, ih, List.length_singleton]

/-- Numbers of so many bytes are recovered from them. -/
theorem byteNumber_bigEndian {width n : Nat} (hn : n < 256 ^ width) :
    byteNumber (Bytes.bigEndian width n) = n := by
  induction width generalizing n with
  | zero =>
    rw [Nat.pow_zero, Nat.lt_one_iff] at hn
    subst hn
    rfl
  | succ width ih =>
    have hhigh : n / 256 < 256 ^ width := by
      rw [Nat.pow_succ] at hn
      exact Nat.div_lt_of_lt_mul (by rwa [Nat.mul_comm])
    rw [Bytes.bigEndian, byteNumber_concat, ih hhigh, UInt8.toNat_ofNat']
    omega

end Hex

namespace Word

variable {width : Nat} {short : Bool} {s : String} {w : Word width}

/-- The least number of digits of a word's name. -/
def leastDigits (width : Nat) (short : Bool) : Nat := if short then 1 else 2 * width

/-- A word is parsed from a text of the right length whose filled digits spell it. -/
theorem parse_eq_ok_iff_decodeWidth :
    parse width short s = .ok w ↔
      ¬((Bytes.ofText (Hex.stripMark s)).length = 0 ∨
        2 * width < (Bytes.ofText (Hex.stripMark s)).length ∨
        (short = false ∧ (Bytes.ofText (Hex.stripMark s)).length ≠ 2 * width)) ∧
      Hex.decodeWidth width (Bytes.ofText (fill (2 * width) (Hex.stripMark s))) = .ok w.bytes := by
  unfold parse
  dsimp only
  split
  case isTrue hbad =>
    constructor
    · intro h
      cases h
    · rintro ⟨hgood, -⟩
      exact absurd hbad hgood
  case isFalse hgood =>
    split
    case h_1 fault hfault => simp [hfault]
    case h_2 bytes hbytes =>
      constructor
      · intro h
        cases h
        exact ⟨hgood, hbytes⟩
      · rintro ⟨-, h⟩
        obtain ⟨bytes', hlength⟩ := w
        obtain rfl := Except.ok.inj (hbytes.symm.trans h)
        rfl

/-- A word is parsed from the digits that it has after some zeros. -/
theorem parse_eq_ok_iff_digits (hwidth : 0 < width) :
    parse width short s = .ok w ↔
      ∃ ds, List.Forall₂ Hex.CharDigit (Hex.stripMark s).toList ds ∧
        leastDigits width short ≤ ds.length ∧ ds.length ≤ 2 * width ∧
        (Hex.digitValues w.bytes).map UInt8.toNat =
          List.replicate (2 * width - ds.length) 0 ++ ds := by
  generalize hcs : (Hex.stripMark s).toList = cs
  have hbytes : Bytes.ofText (Hex.stripMark s) = cs.flatMap String.utf8EncodeChar := by
    rw [← hcs, ← Bytes.ofText_ofList, String.ofList_toList]
  have hfilled : Bytes.ofText (fill (2 * width) (Hex.stripMark s)) =
      (List.replicate (2 * width - cs.length) '0' ++ cs).flatMap String.utf8EncodeChar := by
    rw [fill, hcs, Bytes.ofText_ofList]
  have hvalues : ((Hex.digitValues w.bytes).map UInt8.toNat).length = 2 * width := by
    rw [List.length_map, Hex.length_digitValues, w.length_eq]
  rw [parse_eq_ok_iff_decodeWidth, hfilled, hbytes, Hex.decodeWidth_eq_ok_iff,
    Hex.forall₂_isDigit_iff, and_iff_right w.length_eq]
  -- Bytes and characters are counted alike once the text is known to consist of digits.
  have hallowed : ∀ ds, List.Forall₂ Hex.CharDigit cs ds →
      (¬((cs.flatMap String.utf8EncodeChar).length = 0 ∨
        2 * width < (cs.flatMap String.utf8EncodeChar).length ∨
        (short = false ∧ (cs.flatMap String.utf8EncodeChar).length ≠ 2 * width)) ↔
      leastDigits width short ≤ ds.length ∧ ds.length ≤ 2 * width) := by
    intro ds hds
    rw [Hex.length_utf8_of_forall₂ hds, leastDigits]
    cases short with
    | false =>
      simp only [Bool.false_eq_true, if_false, true_and]
      omega
    | true =>
      simp only [Bool.true_eq_false, if_true, false_and, or_false]
      omega
  constructor
  · rintro ⟨hlength, hdigits⟩
    have hcount := hdigits.length_eq
    rw [List.length_append, List.length_replicate, hvalues] at hcount
    generalize (Hex.digitValues w.bytes).map UInt8.toNat = values at hdigits hvalues
    have hzeros := List.forall₂_take_append values _ _ hdigits.flip
    have hrest := List.forall₂_drop_append values _ _ hdigits.flip
    rw [List.length_replicate] at hzeros hrest
    have hrestLength := hrest.length_eq
    obtain ⟨hleast, hmost⟩ := (hallowed _ hrest.flip).mp hlength
    refine ⟨_, hrest.flip, hleast, hmost, ?_⟩
    rw [hrestLength, ← Hex.eq_zeros_of_forall₂ hzeros.flip, List.take_append_drop]
  · rintro ⟨ds, hds, hleast, hmost, heq⟩
    refine ⟨(hallowed ds hds).mpr ⟨hleast, hmost⟩, ?_⟩
    rw [heq, ← hds.length_eq]
    exact List.rel_append (Hex.forall₂_zeros _) hds

/-- A word is parsed from the texts that denote its number. -/
theorem parse_eq_ok_iff (hwidth : 0 < width) :
    parse width short s = .ok w ↔
      ∃ n, Hex.Denotes (leastDigits width short) (2 * width) s n ∧
        w.bytes = Bytes.bigEndian width n := by
  rw [parse_eq_ok_iff_digits hwidth]
  constructor
  · rintro ⟨ds, hds, hleast, hmost, heq⟩
    refine ⟨Hex.number ds, ⟨_, ds, Hex.unmarked_iff.mpr rfl, hds, hleast, hmost, rfl⟩, ?_⟩
    have hnumber : Hex.byteNumber w.bytes = Hex.number ds := by
      rw [Hex.byteNumber, heq, Hex.number_zeros]
    have hbytes := Hex.bigEndian_byteNumber w.bytes
    rw [w.length_eq, hnumber] at hbytes
    exact hbytes.symm
  · rintro ⟨n, hn, hbytes⟩
    have hlt := hn.lt
    obtain ⟨d, ds, hd, hds, hleast, hmost, rfl⟩ := hn
    obtain rfl := Hex.unmarked_iff.mp hd
    refine ⟨ds, hds, hleast, hmost, ?_⟩
    have hvalues : ((Hex.digitValues w.bytes).map UInt8.toNat).length = 2 * width := by
      rw [List.length_map, Hex.length_digitValues, w.length_eq]
    apply Hex.eq_of_number_eq
    · rw [hvalues, List.length_append, List.length_replicate]
      omega
    · exact fun d hd => Hex.lt_sixteen_of_mem_digitValues hd
    · intro d hd
      rcases List.mem_append.mp hd with hzero | hdigit
      · rw [List.eq_of_mem_replicate hzero]
        decide
      · exact Hex.lt_sixteen_of_mem hds hdigit
    · rw [Hex.number_zeros, ← Hex.byteNumber, hbytes, Hex.byteNumber_bigEndian hlt]

/-- Every text that denotes no number with the right count of digits is refused. -/
theorem parse_eq_error_iff (hwidth : 0 < width) :
    (∃ f, parse width short s = .error f) ↔
      ∀ n, ¬Hex.Denotes (leastDigits width short) (2 * width) s n := by
  constructor
  · rintro ⟨f, hf⟩ n hn
    have hok : parse width short s = .ok ⟨_, Hex.length_bigEndian width n⟩ :=
      (parse_eq_ok_iff hwidth).mpr ⟨n, hn, rfl⟩
    rw [hf] at hok
    cases hok
  · intro hnone
    cases hparse : parse width short s with
    | error f => exact ⟨f, rfl⟩
    | ok w =>
      obtain ⟨n, hn, -⟩ := (parse_eq_ok_iff hwidth).mp hparse
      exact absurd hn (hnone n)

/-- A number of so many digits is determined by its bytes. -/
theorem eq_of_bigEndian_eq {least n m : Nat} {s t : String}
    (hn : Hex.Denotes least (2 * width) s n) (hm : Hex.Denotes least (2 * width) t m)
    (heq : Bytes.bigEndian width n = Bytes.bigEndian width m) : n = m := by
  rw [← Hex.byteNumber_bigEndian hn.lt, heq, Hex.byteNumber_bigEndian hm.lt]

/-- Selectors and slots are parsed from the texts that denote a number in base 16, with or without a
mark: a selector from exactly eight digits, a slot from one to 64. They then hold the bytes of that
number. Every other text is refused, also every text with a character beyond ASCII. So a word is
parsed from its own text, and two texts name the same slot exactly if they denote the same
number. -/
theorem parse_exact :
    (∀ (s : String) (w : Selector), Selector.parse s = .ok w ↔
      ∃ n, Hex.Denotes 8 8 s n ∧ w.bytes = Bytes.bigEndian 4 n) ∧
    (∀ (s : String) (w : Slot), Slot.parse s = .ok w ↔
      ∃ n, Hex.Denotes 1 64 s n ∧ w.bytes = Bytes.bigEndian 32 n) ∧
    (∀ s, ((∃ f, Selector.parse s = .error f) ↔ ∀ n, ¬Hex.Denotes 8 8 s n) ∧
      ((∃ f, Slot.parse s = .error f) ↔ ∀ n, ¬Hex.Denotes 1 64 s n)) ∧
    (∀ s, (∃ c ∈ s.toList, 128 ≤ c.toNat) →
      (∃ f, Selector.parse s = .error f) ∧ ∃ f, Slot.parse s = .error f) ∧
    (∀ w : Selector, Selector.parse w.text = .ok w ∧ w.text.toList.length = 8 ∧
      ∀ c ∈ w.text.toList, c ∈ "0123456789abcdef".toList) ∧
    (∀ w : Slot, Slot.parse w.text = .ok w ∧ w.text.toList.length = 64 ∧
      ∀ c ∈ w.text.toList, c ∈ "0123456789abcdef".toList) ∧
    ∀ s t, (∃ w, Slot.parse s = .ok w ∧ Slot.parse t = .ok w) ↔
      ∃ n, Hex.Denotes 1 64 s n ∧ Hex.Denotes 1 64 t n := by
  have hselector : ∀ (s : String) (w : Selector), Selector.parse s = .ok w ↔
      ∃ n, Hex.Denotes 8 8 s n ∧ w.bytes = Bytes.bigEndian 4 n :=
    fun s w => parse_eq_ok_iff (by decide)
  have hslot : ∀ (s : String) (w : Slot), Slot.parse s = .ok w ↔
      ∃ n, Hex.Denotes 1 64 s n ∧ w.bytes = Bytes.bigEndian 32 n :=
    fun s w => parse_eq_ok_iff (by decide)
  have herror : ∀ s, ((∃ f, Selector.parse s = .error f) ↔ ∀ n, ¬Hex.Denotes 8 8 s n) ∧
      ((∃ f, Slot.parse s = .error f) ↔ ∀ n, ¬Hex.Denotes 1 64 s n) :=
    fun s => ⟨parse_eq_error_iff (by decide), parse_eq_error_iff (by decide)⟩
  refine ⟨hselector, hslot, herror, ?_, fun w => ⟨?_, ?_⟩, fun w => ⟨?_, ?_⟩, fun s t => ?_⟩
  · rintro s ⟨c, hc, hlarge⟩
    have hnone : ∀ least most n, ¬Hex.Denotes least most s n := by
      intro least most n hn
      have hascii := hn.ascii hc
      omega
    exact ⟨(herror s).1.mpr (hnone 8 8), (herror s).2.mpr (hnone 1 64)⟩
  · exact parse_of_named (w.named_text (by decide) false)
  · have htext := Hex.toList_encode w.bytes
    rwa [w.length_eq] at htext
  · exact parse_of_named (w.named_text (by decide) true)
  · have htext := Hex.toList_encode w.bytes
    rwa [w.length_eq] at htext
  · constructor
    · rintro ⟨w, hs, ht⟩
      obtain ⟨n, hn, hbytes⟩ := (hslot s w).mp hs
      obtain ⟨m, hm, hbytes'⟩ := (hslot t w).mp ht
      obtain rfl := eq_of_bigEndian_eq hn hm (hbytes.symm.trans hbytes')
      exact ⟨n, hn, hm⟩
    · rintro ⟨n, hs, ht⟩
      refine ⟨⟨_, Hex.length_bigEndian 32 n⟩, ?_, ?_⟩
      · exact (hslot s _).mpr ⟨n, hs, rfl⟩
      · exact (hslot t _).mpr ⟨n, ht, rfl⟩

end Word

end EngineHost
