import EngineHost.Bytes
import EngineHost.Decimal.Natural
import EngineHost.Text.Blank
import EngineHost.Text.Quoted

/-!
# Hexadecimal text

Byte strings are written with two lower-case hexadecimal digits a byte and read back from digits
of either case. A text may carry the mark `0x` or `0X` in front. Faults are found in a fixed
order: an odd number of digits, then a wrong length, then the first byte that is no digit.
-/

namespace EngineHost.Hex

/-- Why a byte string is not hexadecimal. -/
inductive Fault where
  /-- The number of digits is odd. -/
  | oddLength
  /-- The number of digits is not the one that a fixed width asks for. -/
  | wrongLength
  /-- The byte at this index is no hexadecimal digit. -/
  | badDigit (byte : UInt8) (index : Nat)
  deriving DecidableEq, Repr

/-- The wording of a fault. -/
def Fault.message : Fault → String
  | .oddLength => "Odd number of digits"
  | .wrongLength => "Invalid string length"
  | .badDigit byte index =>
    "Invalid character " ++ Text.quoteChar (Char.ofNat byte.toNat) ++ " at position " ++
      Decimal.text index

/-- The value of a hexadecimal digit. -/
def digit? (b : UInt8) : Option UInt8 :=
  if 48 ≤ b && b ≤ 57 then some (b - 48)
  else if 97 ≤ b && b ≤ 102 then some (b - 87)
  else if 65 ≤ b && b ≤ 70 then some (b - 55)
  else none

/-- The ASCII byte of a digit value, in lower case. -/
def digitByte (d : UInt8) : UInt8 := if d < 10 then d + 48 else d + 87

/-- Two digits a byte, from digits that start at `index`. A last single digit is dropped. -/
def pairs (index : Nat) : Bytes → Except Fault Bytes
  | high :: low :: rest =>
    match digit? high, digit? low with
    | none, _ => .error (.badDigit high index)
    | some _, none => .error (.badDigit low (index + 1))
    | some h, some l =>
      match pairs (index + 2) rest with
      | .error f => .error f
      | .ok out => .ok ((h * 16 + l) :: out)
  | _ => .ok []

/-- The byte string that a string of hexadecimal digits spells. -/
def decode (digits : Bytes) : Except Fault Bytes :=
  if digits.length % 2 = 1 then .error .oddLength else pairs 0 digits

/-- The byte string of `width` bytes that a string of hexadecimal digits spells. -/
def decodeWidth (width : Nat) (digits : Bytes) : Except Fault Bytes :=
  if digits.length % 2 = 1 then .error .oddLength
  else if digits.length / 2 ≠ width then .error .wrongLength
  else pairs 0 digits

/-- The hexadecimal digits of a byte string, as ASCII bytes. -/
def encodeBytes (bs : Bytes) : Bytes :=
  bs.flatMap fun b => [digitByte (b / 16), digitByte (b % 16)]

/-- The hexadecimal text of a byte string, in lower case. -/
def encode (bs : Bytes) : String :=
  String.ofList ((encodeBytes bs).map fun b => Char.ofNat b.toNat)

/-- `strip_hex_prefix`: a text without the mark of hexadecimal notation, if it carries one. -/
def stripMark (s : String) : String :=
  match s.toList with
  | '0' :: 'x' :: rest => String.ofList rest
  | '0' :: 'X' :: rest => String.ofList rest
  | _ => s

/-- `parse_hex_bytes`: the byte string that a text spells in hexadecimal, with an optional mark in
front and blanks at both ends. -/
def parse (s : String) : Except Fault Bytes := decode (Bytes.ofText (stripMark (Text.trim s)))

/-- Each pair of digits gives one byte. -/
theorem length_pairs {index : Nat} {digits out : Bytes} (h : pairs index digits = .ok out) :
    out.length = digits.length / 2 := by
  fun_induction pairs index digits generalizing out with
  | case1 => simp at h
  | case2 => simp at h
  | case3 => simp at h
  | case4 index high low rest hd hl hhigh hlow tail htail ih =>
    cases h
    have hlen := ih htail
    simp only [List.length_cons]
    omega
  | case5 digits _ hshort =>
    cases h
    rcases digits with _ | ⟨b, _ | ⟨c, rest⟩⟩
    · rfl
    · simp
    · exact absurd rfl (hshort b c rest)

/-- A reading of fixed width gives a byte string of that width. -/
theorem length_decodeWidth {width : Nat} {digits out : Bytes}
    (h : decodeWidth width digits = .ok out) : out.length = width := by
  unfold decodeWidth at h
  split at h
  · simp at h
  · split at h
    · simp at h
    · rename_i hwidth
      rw [length_pairs h]
      omega

end EngineHost.Hex
