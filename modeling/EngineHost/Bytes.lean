/-!
# Byte strings

A byte string is a list of bytes. This file relates byte strings to texts through UTF-8, shows
damaged text with replacement characters, and gives the little-endian form of a 32-bit word.
-/

namespace EngineHost

/-- A byte string. -/
abbrev Bytes := List UInt8

namespace Bytes

/-- The UTF-8 bytes of a text. -/
def ofText (s : String) : Bytes := s.toByteArray.data.toList

/-- The text whose UTF-8 bytes these are, if they are valid UTF-8. -/
def text? (bs : Bytes) : Option String := String.fromUTF8? (ByteArray.mk bs.toArray)

/-- Every text is recovered from its bytes. -/
theorem text?_ofText (s : String) : text? (ofText s) = some s := by
  have hmk : ByteArray.mk s.toByteArray.data.toList.toArray = s.toByteArray := by simp
  simp [text?, ofText, String.fromUTF8?, hmk, s.isValidUTF8, String.fromUTF8]

/-- Bytes that are the text `s` are its bytes. -/
theorem text?_eq_some_iff {bs : Bytes} {s : String} : text? bs = some s ↔ bs = ofText s := by
  constructor
  · intro h
    simp only [text?, String.fromUTF8?] at h
    split at h
    case isTrue hvalid =>
      cases h
      simp [ofText, String.fromUTF8]
    case isFalse => cases h
  · rintro rfl
    exact text?_ofText s

/-- The last `width` bytes of a number, the most significant first. -/
def bigEndian : Nat → Nat → Bytes
  | 0, _ => []
  | width + 1, n => bigEndian width (n / 256) ++ [UInt8.ofNat n]

/-- What a first byte promises: the number of bytes after it, and the bounds of the first of
those. Bytes that start no sequence promise nothing. -/
def promise (b : UInt8) : Option (Nat × UInt8 × UInt8) :=
  if b < 0x80 then some (0, 0x80, 0xBF)
  else if b < 0xC2 then none
  else if b < 0xE0 then some (1, 0x80, 0xBF)
  else if b = 0xE0 then some (2, 0xA0, 0xBF)
  else if b = 0xED then some (2, 0x80, 0x9F)
  else if b < 0xF0 then some (2, 0x80, 0xBF)
  else if b = 0xF0 then some (3, 0x90, 0xBF)
  else if b < 0xF4 then some (3, 0x80, 0xBF)
  else if b = 0xF4 then some (3, 0x80, 0x8F)
  else none

/-- The leading bytes of `bs` that keep the promise of `count` continuation bytes, of which the
first lies between `lo` and `hi`. -/
def keeping : Nat → UInt8 → UInt8 → Bytes → Bytes
  | count + 1, lo, hi, b :: bs =>
    if lo ≤ b && b ≤ hi then b :: keeping count 0x80 0xBF bs else []
  | _, _, _, _ => []

/-- The scalar value of a complete UTF-8 sequence of one first byte and its continuation. -/
def scalar (first : UInt8) (rest : Bytes) : Nat :=
  let payload := match rest.length with
    | 0 => first.toNat
    | 1 => first.toNat % 0x20
    | 2 => first.toNat % 0x10
    | _ => first.toNat % 0x08
  rest.foldl (fun n b => n * 0x40 + b.toNat % 0x40) payload

/-- The characters of a byte string, where every longest unfinished or impossible sequence is
shown as one replacement character. -/
def lossyChars : Bytes → List Char
  | [] => []
  | b :: bs =>
    match promise b with
    | none => '�' :: lossyChars bs
    | some (count, lo, hi) =>
      let kept := keeping count lo hi bs
      let c := if kept.length = count then Char.ofNat (scalar b kept) else '�'
      c :: lossyChars (bs.drop kept.length)
termination_by bs => bs.length
decreasing_by
  · exact Nat.lt_succ_self _
  · rw [List.length_drop, List.length_cons]
    omega

/-- A byte string as a text, with replacement characters where it is not UTF-8. -/
def lossyText (bs : Bytes) : String := String.ofList (lossyChars bs)

/-- The four bytes of a word, the least significant first. -/
def ofWord (w : UInt32) : Bytes :=
  [w.toUInt8, (w >>> 8).toUInt8, (w >>> 16).toUInt8, (w >>> 24).toUInt8]

/-- The word that `read_u32_le` makes of bytes, the least significant first. Bytes beyond the fourth
are not read, and missing bytes count as zero. -/
def toWord (bs : Bytes) : UInt32 :=
  (bs.take 4).foldr (fun b w => (w <<< 8) ||| b.toUInt32) 0

end Bytes

end EngineHost
