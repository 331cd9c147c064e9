import EngineHost.Environment
import EngineHost.Proofs.Json.Spelling
import EngineHost.Proofs.Text.Trim
import Mathlib.Data.List.Forall2
import Mathlib.Data.Nat.Digits.Defs

/-!
# Numbers in the environment

A variable gives a number if it is set to a text that, without the blanks at its ends, writes one:
decimal digits, with any number of zeros in front, after an optional plus sign. Texts are read byte
by byte. No byte of a character beyond ASCII is a digit or a sign, so a text is read exactly if its
characters write a number.
-/

namespace EngineHost

namespace Decimal

/-- A character is the decimal digit of this value. -/
def CharDigit (c : Char) (d : Nat) : Prop := d < 10 ∧ c = d.digitChar

/-- A text that writes a natural number: its digits, after an optional plus sign. -/
def Writes (s : String) (n : Nat) : Prop :=
  ∃ sign ∈ ["", "+"], ∃ digits ds, s = sign ++ digits ∧ ds ≠ [] ∧
    List.Forall₂ CharDigit digits.toList ds ∧ n = Nat.ofDigits 10 ds.reverse

/-- The number that digits spell is their value in base ten. -/
theorem value_eq_ofDigits (ds : List Nat) : value ds = Nat.ofDigits 10 ds.reverse := by
  rw [value, valueFrom, Nat.ofDigits_eq_foldr, List.foldr_reverse]
  refine congrArg (fun f => ds.foldl f 0) (funext fun n => funext fun d => ?_)
  simp only [Nat.cast_id]
  omega

/-- A byte spells a digit just in case its ASCII character is the digit. -/
theorem digit?_eq_some_iff {c : Char} {b : UInt8} (hc : c.toNat = b.toNat) {d : Nat} :
    digit? b = some d ↔ CharDigit c d := by
  have hchar : ∀ d < 10, d.digitChar.toNat = 48 + d := by decide
  unfold digit? CharDigit
  constructor
  · intro h
    split at h
    case isTrue hrange =>
      simp only [Bool.and_eq_true, decide_eq_true_eq] at hrange
      have hleast : 48 ≤ b.toNat := hrange.1
      have hmost : b.toNat ≤ 57 := hrange.2
      have hd : b.toNat - 48 = d := Option.some.inj h
      have hlt : d < 10 := by omega
      refine ⟨hlt, Char.toNat_inj.mp ?_⟩
      rw [hchar d hlt]
      omega
    case isFalse => cases h
  · rintro ⟨hd, rfl⟩
    rw [hchar d hd] at hc
    have hleast : 48 ≤ b := by
      change 48 ≤ b.toNat
      omega
    have hmost : b ≤ 57 := by
      change b.toNat ≤ 57
      omega
    simp only [hleast, hmost, decide_true, Bool.and_self, if_true, Option.some.injEq]
    omega

/-- Digits are read one after the other. -/
theorem digits?_cons (b : UInt8) (bs : Bytes) :
    digits? (b :: bs) = (digit? b).bind fun d => (digits? bs).map (d :: ·) := by
  rw [digits?, List.mapM_cons]
  cases digit? b with
  | none => rfl
  | some d =>
    change (digits? bs).bind (fun ds => some (d :: ds)) = _
    rw [Option.bind_some, Option.map_eq_bind]
    rfl

/-- A byte outside ASCII spells no digit. -/
theorem digit?_of_large {b : UInt8} (hb : 128 ≤ b) : digit? b = none := by
  have hlarge : 128 ≤ b.toNat := hb
  have hmost : ¬b ≤ 57 := by
    change ¬b.toNat ≤ 57
    omega
  rw [digit?, if_neg]
  simp [hmost]

/-- The bytes of a text are read as digits exactly if its characters are digits. -/
theorem digits?_utf8 {cs : List Char} {ds : List Nat} :
    digits? (cs.flatMap String.utf8EncodeChar) = some ds ↔ List.Forall₂ CharDigit cs ds := by
  induction cs generalizing ds with
  | nil =>
    rw [List.forall₂_nil_left_iff]
    change some [] = some ds ↔ ds = []
    rw [Option.some.injEq, eq_comm]
  | cons c cs ih =>
    rw [List.forall₂_cons_left_iff, List.flatMap_cons]
    rcases Json.utf8EncodeChar_cases c with ⟨b, hcode, hbytes⟩ | ⟨hlarge, b, bs, hbytes, hb⟩
    · rw [hbytes, List.singleton_append, digits?_cons]
      simp only [Option.bind_eq_some_iff, Option.map_eq_some_iff, digit?_eq_some_iff hcode, ih]
      constructor
      · rintro ⟨d, hd, es, hes, rfl⟩
        exact ⟨d, es, hd, hes, rfl⟩
      · rintro ⟨d, es, hd, hes, rfl⟩
        exact ⟨d, hd, es, hes, rfl⟩
    · rw [hbytes, List.cons_append, digits?_cons, digit?_of_large hb, Option.bind_none]
      constructor
      · intro h
        cases h
      · rintro ⟨d, es, ⟨hd, rfl⟩, -⟩
        have hchar : ∀ d < 10, d.digitChar.toNat < 128 := by decide
        have hsmall := hchar d hd
        omega

end Decimal

namespace Environment

/-- What is left of a text without its plus sign, if it has one. -/
def unsigned : List Char → List Char
  | '+' :: cs => cs
  | cs => cs

/-- A text writes a number just in case its characters without a plus sign are digits that spell it.
-/
theorem writes_iff {s : String} {n : Nat} :
    Decimal.Writes s n ↔ ∃ ds, ds ≠ [] ∧ List.Forall₂ Decimal.CharDigit (unsigned s.toList) ds ∧
      n = Decimal.value ds := by
  simp only [Decimal.value_eq_ofDigits]
  constructor
  · rintro ⟨sign, hsign, digits, ds, rfl, hne, hdigits, hn⟩
    refine ⟨ds, hne, ?_, hn⟩
    simp only [List.mem_cons, List.not_mem_nil, or_false] at hsign
    rcases hsign with rfl | rfl
    · -- A digit is no sign, so nothing is taken off.
      rw [String.empty_append]
      generalize digits.toList = cs at hdigits
      cases hdigits with
      | nil => exact absurd rfl hne
      | @cons c d cs ds hc hcs =>
        have hplus : c ≠ '+' := by
          have hall : ∀ d < 10, d.digitChar ≠ '+' := by decide
          rw [hc.2]
          exact hall d hc.1
        have hkeep : unsigned (c :: cs) = c :: cs := by
          unfold unsigned
          split
          case h_1 heq =>
            obtain ⟨rfl, -⟩ := List.cons.inj heq
            exact absurd rfl hplus
          case h_2 => rfl
        rw [hkeep]
        exact .cons hc hcs
    · simpa [unsigned] using hdigits
  · rintro ⟨ds, hne, hdigits, hn⟩
    unfold unsigned at hdigits
    split at hdigits
    case h_1 cs hs =>
      refine ⟨"+", by simp, String.ofList cs, ds, ?_, hne, by simpa using hdigits, hn⟩
      apply String.toList_injective
      simp [hs]
    case h_2 => exact ⟨"", by simp, s, ds, by simp, hne, hdigits, hn⟩

/-- A plus sign in front of the bytes is one in front of the characters. -/
theorem utf8_unsigned_of_plus {cs : List Char} {rest : Bytes}
    (h : cs.flatMap String.utf8EncodeChar = 43 :: rest) :
    (unsigned cs).flatMap String.utf8EncodeChar = rest := by
  cases cs with
  | nil => cases h
  | cons c cs =>
    rw [List.flatMap_cons] at h
    rcases Json.utf8EncodeChar_cases c with ⟨b, hcode, hbytes⟩ | ⟨-, b, bs, hbytes, hb⟩
    · rw [hbytes, List.singleton_append] at h
      obtain ⟨rfl, hrest⟩ := List.cons.inj h
      obtain rfl : c = '+' := Char.toNat_inj.mp hcode
      exact hrest
    · rw [hbytes, List.cons_append] at h
      obtain ⟨rfl, -⟩ := List.cons.inj h
      exact absurd hb (by decide)

/-- Characters whose bytes do not start with a plus sign have none to lose. -/
theorem unsigned_of_not_plus {cs : List Char}
    (h : ∀ rest, cs.flatMap String.utf8EncodeChar ≠ 43 :: rest) : unsigned cs = cs := by
  unfold unsigned
  split
  case h_1 cs => exact absurd rfl (h (cs.flatMap String.utf8EncodeChar))
  case h_2 => rfl

/-- A text is read as a number exactly if it writes one that is small enough. -/
theorem natural?_eq_some_iff {bound n : Nat} {s : String} :
    natural? bound s = some n ↔ Decimal.Writes s n ∧ n < bound := by
  have hread : natural? bound s =
      if (unsigned s.toList).flatMap String.utf8EncodeChar = [] then none
      else (Decimal.digits? ((unsigned s.toList).flatMap String.utf8EncodeChar)).bind fun ds =>
        if Decimal.value ds < bound then some (Decimal.value ds) else none := by
    unfold natural?
    rw [Bytes.ofText_eq_flatMap]
    dsimp only
    split
    case h_1 rest hplus => rw [utf8_unsigned_of_plus hplus]
    case h_2 hnone => rw [unsigned_of_not_plus hnone]
  rw [hread, writes_iff]
  constructor
  · intro h
    split at h
    case isTrue => cases h
    case isFalse hne =>
      obtain ⟨ds, hds, hn⟩ := Option.bind_eq_some_iff.mp h
      have hdigits := Decimal.digits?_utf8.mp hds
      split at hn
      case isTrue hlt =>
        cases hn
        refine ⟨⟨ds, ?_, hdigits, rfl⟩, hlt⟩
        rintro rfl
        rw [List.forall₂_nil_right_iff] at hdigits
        rw [hdigits] at hne
        exact hne rfl
      case isFalse => cases hn
  · rintro ⟨⟨ds, hne, hdigits, rfl⟩, hlt⟩
    have hne' : ¬(unsigned s.toList).flatMap String.utf8EncodeChar = [] := by
      intro hnil
      have hds := Decimal.digits?_utf8.mpr hdigits
      rw [hnil] at hds
      exact hne (Option.some.inj hds).symm
    rw [if_neg hne', Decimal.digits?_utf8.mpr hdigits, Option.bind_some, if_pos hlt]

end Environment

end EngineHost
