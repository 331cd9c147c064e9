import EngineHost.Json.Quoted

/-!
# Spellings of a string

A character of a JSON string may stand for itself, in UTF-8, or be escaped: by a letter, by a
UTF-16 unit, or by a pair of units where one is not enough. Whatever the choice for each character,
the string is read as the same text.
-/

namespace EngineHost

/-- The bytes of a text are those of its characters. -/
theorem Bytes.ofText_ofList (cs : List Char) :
    Bytes.ofText (String.ofList cs) = cs.flatMap String.utf8EncodeChar := by
  simp [Bytes.ofText, List.utf8Encode]

/-- The bytes of a text are those of its characters. -/
theorem Bytes.ofText_eq_flatMap (s : String) :
    ofText s = s.toList.flatMap String.utf8EncodeChar := by
  rw [← Bytes.ofText_ofList, String.ofList_toList]

namespace Json

/-- The unit that opens the surrogate pair of a character. -/
def leadingUnit (c : Char) : Nat := 0xD800 + (c.toNat - 0x10000) / 0x400

/-- The unit that closes the surrogate pair of a character. -/
def trailingUnit (c : Char) : Nat := 0xDC00 + (c.toNat - 0x10000) % 0x400

/-- The pieces that one character may be written with. -/
inductive CharSpelled (c : Char) : List Piece → Prop where
  /-- The bytes of the character itself. -/
  | raw : CharSpelled c ((String.utf8EncodeChar c).map .plain)
  /-- A letter escape. -/
  | letter {b : UInt8} (hascii : b < 128) (hc : c.toNat = b.toNat) : CharSpelled c [.escape b]
  /-- A single unit. -/
  | unit (hc : c.toNat < 0x10000) : CharSpelled c [.unit c.toNat]
  /-- A surrogate pair. -/
  | pair (hc : 0x10000 ≤ c.toNat) : CharSpelled c [.unit (leadingUnit c), .unit (trailingUnit c)]

/-- The pieces that a text may be written with. -/
inductive Spelled : List Char → List Piece → Prop where
  | nil : Spelled [] []
  | cons {c : Char} {cs : List Char} {ps qs : List Piece} (hc : CharSpelled c ps)
    (hcs : Spelled cs qs) : Spelled (c :: cs) (ps ++ qs)

/-- A character is no surrogate. -/
theorem not_surrogate (c : Char) : c.toNat < 0xD800 ∨ 0xDFFF < c.toNat := by
  rcases c.valid with hlow | ⟨hhigh, _⟩
  · exact .inl hlow
  · exact .inr hhigh

/-- The code points of characters end at `0x10FFFF`. -/
theorem toNat_le (c : Char) : c.toNat ≤ 0x10FFFF := by
  rcases c.valid with hlow | ⟨_, hmax⟩
  · have hlow' : c.toNat < 0xD800 := hlow
    omega
  · have hmax' : c.toNat < 0x110000 := hmax
    omega

/-- The bytes of a character's code point are its UTF-8 bytes. -/
theorem codePointBytes_toNat (c : Char) : codePointBytes c.toNat = String.utf8EncodeChar c := by
  rw [codePointBytes, Char.ofNat_toNat]

/-- A character below 128 is its own byte. -/
theorem utf8EncodeChar_of_ascii {c : Char} {b : UInt8} (hascii : b < 128)
    (hc : c.toNat = b.toNat) : String.utf8EncodeChar c = [b] := by
  have hb : b.toNat < 128 := hascii
  have hlow : c.toNat ≤ 127 := by omega
  have hbyte : UInt8.ofNat c.toNat = b := by rw [hc, UInt8.ofNat_toNat]
  simp [String.utf8EncodeChar, hlow, hbyte]

/-- The bytes of a character beyond ASCII are all 128 or more. -/
theorem large_of_mem_utf8EncodeChar {c : Char} (hc : 128 ≤ c.toNat) {b : UInt8}
    (hb : b ∈ String.utf8EncodeChar c) : 128 ≤ b := by
  have hbyte : ∀ n, 128 ≤ n → n < 256 → 128 ≤ UInt8.ofNat n := by
    intro n hlow hhigh
    change 128 ≤ (UInt8.ofNat n).toNat
    rw [UInt8.toNat_ofNat']
    omega
  unfold String.utf8EncodeChar at hb
  have hlarge : ¬c.val.toNat ≤ 127 := by
    change ¬c.toNat ≤ 127
    omega
  simp only [if_neg hlarge] at hb
  split at hb
  · simp only [List.mem_cons, List.not_mem_nil, or_false] at hb
    rcases hb with rfl | rfl <;> exact hbyte _ (by omega) (by omega)
  · split at hb
    · simp only [List.mem_cons, List.not_mem_nil, or_false] at hb
      rcases hb with rfl | rfl | rfl <;> exact hbyte _ (by omega) (by omega)
    · simp only [List.mem_cons, List.not_mem_nil, or_false] at hb
      rcases hb with rfl | rfl | rfl | rfl <;> exact hbyte _ (by omega) (by omega)

/-- A character is a single byte of the same code, or it begins with a byte that no ASCII character
has. -/
theorem utf8EncodeChar_cases (c : Char) :
    (∃ b : UInt8, c.toNat = b.toNat ∧ String.utf8EncodeChar c = [b]) ∨
      128 ≤ c.toNat ∧ ∃ b bs, String.utf8EncodeChar c = b :: bs ∧ 128 ≤ b := by
  by_cases hascii : c.toNat < 128
  · have hcode : c.toNat = (UInt8.ofNat c.toNat).toNat := by
      rw [UInt8.toNat_ofNat']
      omega
    have hlt : UInt8.ofNat c.toNat < 128 := by
      change (UInt8.ofNat c.toNat).toNat < 128
      omega
    exact .inl ⟨_, hcode, utf8EncodeChar_of_ascii hlt hcode⟩
  · have hlarge : 128 ≤ c.toNat := by omega
    obtain ⟨b, bs, hbytes⟩ : ∃ b bs, String.utf8EncodeChar c = b :: bs := by
      apply List.exists_cons_of_length_pos
      rw [String.length_utf8EncodeChar]
      exact c.utf8Size_pos
    refine .inr ⟨hlarge, b, bs, hbytes, large_of_mem_utf8EncodeChar hlarge ?_⟩
    rw [hbytes]
    exact List.mem_cons_self ..

/-- The first unit of a surrogate pair is a leading one. -/
theorem leadingUnit_bounds {c : Char} (hc : 0x10000 ≤ c.toNat) :
    0xD800 ≤ leadingUnit c ∧ leadingUnit c ≤ 0xDBFF := by
  have hmax := toNat_le c
  unfold leadingUnit
  omega

/-- The second unit of a surrogate pair is a trailing one. -/
theorem trailingUnit_bounds (c : Char) : 0xDC00 ≤ trailingUnit c ∧ trailingUnit c ≤ 0xDFFF := by
  unfold trailingUnit
  omega

/-- The units of a pair combine to the character. -/
theorem pairedUnits_units {c : Char} (hc : 0x10000 ≤ c.toNat) :
    pairedUnits (leadingUnit c) (trailingUnit c) = c.toNat := by
  unfold pairedUnits leadingUnit trailingUnit
  omega

namespace Quoted

/-- Plain bytes stand for themselves. -/
theorem bytesOf_plain (ending : QuotedEnd) (bs : Bytes) (ps : List Piece) :
    bytesOf ending (bs.map .plain ++ ps) = (bytesOf ending ps).map (bs ++ ·) := by
  induction bs with
  | nil => cases h : bytesOf ending ps <;> simp [h, Except.map]
  | cons b bs ih =>
    rw [List.map_cons, List.cons_append, bytesOf, ih]
    cases bytesOf ending ps <;> rfl

/-- A unit that is no surrogate stands for its code point. -/
theorem bytesOf_unit {u : Nat} (htrailing : isTrailing u = false) (hleading : isLeading u = false)
    (ending : QuotedEnd) (ps : List Piece) :
    bytesOf ending (.unit u :: ps) = (bytesOf ending ps).map (codePointBytes u ++ ·) := by
  rcases ps with _ | ⟨_ | _ | _, ps⟩ <;> simp [bytesOf, htrailing, hleading]

/-- A character is read from any of its spellings. -/
theorem bytesOf_char {c : Char} {ps : List Piece} (hc : CharSpelled c ps) (qs : List Piece)
    {bs : Bytes} (hqs : bytesOf .closed qs = .ok bs) :
    bytesOf .closed (ps ++ qs) = .ok (String.utf8EncodeChar c ++ bs) := by
  cases hc with
  | raw => rw [bytesOf_plain, hqs]; rfl
  | letter hascii hc =>
    rw [utf8EncodeChar_of_ascii hascii hc]
    simp [bytesOf, hqs, Except.map]
  | unit hc =>
    have hsurrogate := not_surrogate c
    have htrailing : isTrailing c.toNat = false := by
      simp only [isTrailing, Bool.and_eq_false_iff, decide_eq_false_iff_not]
      omega
    have hleading : isLeading c.toNat = false := by
      simp only [isLeading, Bool.and_eq_false_iff, decide_eq_false_iff_not]
      omega
    rw [List.singleton_append, bytesOf_unit htrailing hleading, hqs, codePointBytes_toNat]
    rfl
  | pair hc =>
    obtain ⟨hleast, hmost⟩ := leadingUnit_bounds hc
    obtain ⟨hleast', hmost'⟩ := trailingUnit_bounds c
    have hnot : isTrailing (leadingUnit c) = false := by
      simp only [isTrailing, Bool.and_eq_false_iff, decide_eq_false_iff_not]
      omega
    have hleading : isLeading (leadingUnit c) = true := by simp [isLeading, hleast, hmost]
    have htrailing : isTrailing (trailingUnit c) = true := by simp [isTrailing, hleast', hmost']
    rw [List.cons_append, List.singleton_append, bytesOf, hnot, hleading]
    simp only [Bool.false_eq_true, if_false, if_true, htrailing, hqs, pairedUnits_units hc,
      codePointBytes_toNat]
    rfl

/-- Pieces that spell characters have their UTF-8 bytes. -/
theorem bytesOf_spelled {cs : List Char} {ps : List Piece} (hspelled : Spelled cs ps) :
    bytesOf .closed ps = .ok (cs.flatMap String.utf8EncodeChar) := by
  induction hspelled with
  | nil => rfl
  | cons hc _ ih => rw [bytesOf_char hc _ ih, List.flatMap_cons]

/-- A string is read as the text that it spells. -/
theorem text_of_spelled {s : String} {ps : List Piece} (hspelled : Spelled s.toList ps) :
    text ⟨ps, .closed⟩ = .ok s := by
  have hbytes := bytesOf_spelled hspelled
  rw [← Bytes.ofText_ofList, String.ofList_toList] at hbytes
  simp [text, hbytes, Bytes.text?_ofText]

end Quoted

end Json

end EngineHost
