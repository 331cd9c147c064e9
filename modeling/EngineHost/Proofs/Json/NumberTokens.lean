import EngineHost.Json.View
import EngineHost.Proofs.Json.Inversion
import EngineHost.Proofs.Json.Places
import EngineHost.Proofs.Json.Printing
import EngineHost.Proofs.Json.Reading

/-!
# Number tokens

A number may be written with a sign, a fraction, an exponent, and zeros in front. As an offset only
plain decimals of 64 bits are taken, whether they are read directly or as part of untyped data. All
other tokens are refused: those with a superfluous zero by the scanner, and the others because they
are out of range or stand for a negative number or a double.
-/

namespace EngineHost.Json

/-- The number tokens: a sign, digits, a fraction and an exponent, of which only the digits have to
be there. -/
inductive NumberToken : Bytes → Prop where
  | mk (negative : Bool) {whole : List Nat} {fraction : Option (List Nat)}
    {exponent : Option Exponent} {fractionText exponentText : Bytes} (hwhole : Digits whole)
    (hfraction : FractionWritten fraction fractionText)
    (hexponent : ExponentWritten exponent exponentText) :
    NumberToken
      ((if negative then [45] else []) ++ (digitBytes whole ++ (fractionText ++ exponentText)))

/-- A token that consists of the digits of `n`, with no zero in front unless it is the only
digit. -/
def PlainDecimal (token : Bytes) (n : Nat) : Prop :=
  ∃ ds, Digits ds ∧ (ds.head? = some 0 → ds = [0]) ∧ token = digitBytes ds ∧ Decimal.value ds = n

/-- A token with a digit after a leading zero. -/
def ZeroLed (token : Bytes) : Prop :=
  ∃ (negative : Bool) (d : Nat) (rest : Bytes), d < 10 ∧
    token = (if negative then [45] else []) ++ (48 :: Decimal.digitByte d :: rest)

/-- The digits of a number are a plain token of it. -/
theorem plainDecimal_digits (n : Nat) : PlainDecimal (digitBytes (Decimal.digits n)) n :=
  ⟨Decimal.digits n, ⟨Decimal.digits_ne_nil n, fun _ hd => Decimal.lt_ten_of_mem_digits hd⟩,
    Decimal.digits_of_head, rfl, Decimal.value_digits n⟩

/-- The digits can be read off their bytes. -/
theorem filterMap_digitBytes {ds : List Nat} (hdigits : Digits ds) :
    (digitBytes ds).filterMap Decimal.digit? = ds := by
  rw [digitBytes, List.filterMap_map]
  refine (List.filterMap_congr fun d hd => ?_).trans List.filterMap_some
  exact Decimal.digit?_digitByte (hdigits.2 d hd)

/-- A token stands for one number only. -/
theorem PlainDecimal.unique {token : Bytes} {n m : Nat} (hn : PlainDecimal token n)
    (hm : PlainDecimal token m) : n = m := by
  obtain ⟨ds, hds, -, rfl, rfl⟩ := hn
  obtain ⟨es, hes, -, htoken, rfl⟩ := hm
  rw [← filterMap_digitBytes hds, htoken, filterMap_digitBytes hes]

/-- Plain tokens are numbers. -/
theorem PlainDecimal.numberToken {token : Bytes} {n : Nat} (hplain : PlainDecimal token n) :
    NumberToken token := by
  obtain ⟨ds, hds, -, rfl, -⟩ := hplain
  simpa using NumberToken.mk false hds .none .none

/-- A token is a number of the grammar unless a digit follows its leading zero. -/
theorem NumberToken.written_or_zeroLed {token : Bytes} (htoken : NumberToken token) :
    (∃ n : Numeral, n.Written token) ∨ ZeroLed token := by
  cases htoken with
  | mk negative hwhole hfraction hexponent =>
    rename_i whole fraction exponent fractionText exponentText
    by_cases hzero : whole.head? = some 0 → whole = [0]
    · exact .inl ⟨_, .mk hwhole hzero hfraction hexponent⟩
    · rw [Classical.not_imp] at hzero
      obtain ⟨hhead, hne⟩ := hzero
      match whole with
      | [] => cases hhead
      | [0] => exact absurd rfl hne
      | 0 :: d :: ds =>
        exact .inr ⟨negative, d, digitBytes ds ++ (fractionText ++ exponentText),
          hwhole.2 d (by simp), rfl⟩

namespace Scan

/-- The scanner stops at a digit after a leading zero. -/
theorem push_zero_digit (stack : List Frame) (negative : Bool) {d : Nat} (hd : d < 10) :
    push (.running stack (.numeral { negative := negative, whole := [0] }))
      (Decimal.digitByte d) = halt stack (.broken .wrongNumeral) := by
  have hdigit := Decimal.digit?_digitByte hd
  simp [push, pushNumeral, Numeral.push, Numeral.complete, Numeral.leadingZero, hdigit]

/-- A zero with a digit behind it is refused as soon as the digit is there. -/
theorem feed_zeroLed (stack : List Frame) (place : Place) (negative : Bool) {d : Nat}
    (hd : d < 10) :
    feed (.running stack (.start place))
      ((if negative then [45] else []) ++ [48, Decimal.digitByte d]) =
        halt stack (.broken .wrongNumeral) := by
  have hzero : (48 : UInt8) = Decimal.digitByte 0 := by decide
  cases negative with
  | false =>
    change ((push (.running stack (.start place)) 48).push (Decimal.digitByte d)) = _
    rw [hzero, push_start_digit stack place (by decide), push_zero_digit stack false hd]
  | true =>
    change (push (push (.running stack (.numeral { negative := true })) 48)
      (Decimal.digitByte d)) = _
    have hpush : Numeral.push { negative := true } 48 =
        some { negative := true, whole := [0] } := by decide
    rw [push_numeral stack hpush, push_zero_digit stack true hd]

end Scan

/-- Where a token has a digit after a leading zero, the tree is broken. -/
theorem Lead.at_of_zeroLed {stack : List Frame} {lead token : Bytes} (hlead : Lead stack lead)
    (htoken : ZeroLed token) (trail : Bytes) :
    At stack (Document.ofBytes (lead ++ (token ++ trail))).root (.broken .wrongNumeral) := by
  obtain ⟨negative, d, rest, hd, rfl⟩ := htoken
  obtain ⟨place, hend⟩ :=
    hlead.mayEnd ((if negative then [45] else []) ++ [48, Decimal.digitByte d]) (rest ++ trail)
  rw [Scan.feed_zeroLed stack place negative hd] at hend
  simpa using Scan.at_of_mayEnd_halt hend

/-! ### Reading -/

/-- An offset is read from a numeral as it is read from the number that the numeral spells. -/
theorem Read.offset_numeral (n : Numeral) :
    Read.offset (Node.numeral n) = n.number.bind fun x => Read.offset (Value.number x) := by
  simp only [Read.offset, Read.natural, Source.view, Node.view]
  cases n.number with
  | error f => rfl
  | ok x => cases x <;> rfl

/-- A plain token of an offset writes a numeral that is read as this offset. -/
theorem PlainDecimal.exists_numeral {token : Bytes} {n : UInt64}
    (hplain : PlainDecimal token n.toNat) :
    ∃ x : Numeral, x.Written token ∧ Read.offset (Node.numeral x) = .ok n := by
  obtain ⟨ds, hdigits, hzero, rfl, hvalue⟩ := hplain
  refine ⟨{ whole := ds }, ?_, ?_⟩
  · simpa using @Numeral.Written.mk false _ _ _ _ _ hdigits hzero .none .none
  · have hn := n.toNat_lt
    have hlt : Decimal.value ds < 0x10000000000000000 := by omega
    have hnumber : Numeral.number { whole := ds } = .ok (.integer n.toNat) := by
      rw [Numeral.number, ← hvalue]
      exact if_pos ⟨rfl, rfl, rfl, hlt⟩
    have hoffset : Read.offset (Value.number (.integer n.toNat)) = .ok n :=
      reads_offset (Value.Shows.natural n.toNat)
    rw [Read.offset_numeral, hnumber, Except.bind, hoffset]

/-- A number other than a plain decimal of 64 bits is no offset. -/
theorem Numeral.offset_of_not_plain {n : Numeral} {token : Bytes} (hwritten : n.Written token)
    (hplain : ¬∃ m : UInt64, PlainDecimal token m.toNat) :
    ∃ f, Read.offset (Node.numeral n) = .error f := by
  rw [Read.offset_numeral, Numeral.number]
  split
  · rename_i hexact
    obtain ⟨hfraction, hexponent, hnegative, hsize⟩ := hexact
    -- Here the token would be the digits of an offset.
    refine absurd ⟨UInt64.ofNat (Decimal.value n.whole), ?_⟩ hplain
    cases hwritten with
    | mk hwhole hzero hfractionText hexponentText =>
      cases hfraction
      cases hexponent
      cases hnegative
      cases hfractionText
      cases hexponentText
      exact ⟨_, hwhole, hzero, by simp, (UInt64.toNat_ofNat_of_lt' hsize).symm⟩
  · split
    · rename_i hnegative
      obtain ⟨-, -, -, hpos, -⟩ := hnegative
      have hsign : ¬(0 ≤ -(Decimal.value n.whole : Int) ∧
          -(Decimal.value n.whole : Int) < (0x10000000000000000 : Nat)) := by omega
      exact ⟨.invalidValue (-(Decimal.value n.whole : Int)) .offset, by
        simp only [Except.bind, Read.offset, Read.natural, Source.view, Value.view,
          if_neg hsign, Except.map]⟩
    · cases n.magnitude with
      | error f => exact ⟨f, rfl⟩
      | ok x => exact ⟨_, rfl⟩

end EngineHost.Json
