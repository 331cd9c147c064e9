import EngineHost.Json.Fault

/-!
# Numerals

The digits and signs of a JSON number, collected byte by byte, and the number they spell. Integers
that fit into 64 bits are exact. Every other number is a double, computed from the leading digits
that fit into 64 bits and one multiplication or division by a power of ten.
-/

namespace EngineHost.Json

/-- A JSON number: an integer of 64 bits, signed or unsigned, or a double. -/
inductive Number where
  | integer (i : Int)
  | real (x : Float)

/-- How a message names a number. -/
def Number.unexpected : Number → Unexpected
  | .integer i => .integer i
  | .real x => .real x

/-- The part of a numeral after the letter `e`. -/
structure Exponent where
  /-- The sign, if one was written: `true` for minus. -/
  sign : Option Bool := none
  /-- The digits. -/
  digits : List Nat := []
  deriving DecidableEq, Repr

/-- The parts of a number as written, of which the last may still be growing. -/
structure Numeral where
  /-- A minus sign stands in front. -/
  negative : Bool := false
  /-- The digits before the point. -/
  whole : List Nat := []
  /-- The digits after the point, if there is one. -/
  fraction : Option (List Nat) := none
  /-- What follows the letter `e`, if there is one. -/
  exponent : Option Exponent := none
  deriving DecidableEq, Repr

namespace Numeral

/-- Whether a byte is the letter that opens an exponent. -/
def isExponentMark (b : UInt8) : Bool := b = 101 || b = 69

/-- The numeral that one more byte makes of this one, if the byte belongs to it. A first digit
zero takes no further digit. -/
def push (n : Numeral) (b : UInt8) : Option Numeral :=
  match n.exponent, n.fraction with
  | some e, _ =>
    match Decimal.digit? b with
    | some d => some { n with exponent := some { e with digits := e.digits ++ [d] } }
    | none =>
      if e.sign = none ∧ e.digits = [] ∧ (b = 43 ∨ b = 45) then
        some { n with exponent := some { e with sign := some (b = 45) } }
      else none
  | none, some ds =>
    match Decimal.digit? b with
    | some d => some { n with fraction := some (ds ++ [d]) }
    | none => if ds ≠ [] ∧ isExponentMark b then some { n with exponent := some {} } else none
  | none, none =>
    match Decimal.digit? b with
    | some d => if n.whole = [0] then none else some { n with whole := n.whole ++ [d] }
    | none =>
      if n.whole = [] then none
      else if b = 46 then some { n with fraction := some [] }
      else if isExponentMark b then some { n with exponent := some {} }
      else none

/-- Whether every digit that the grammar asks for is there. -/
def complete (n : Numeral) : Bool :=
  match n.exponent, n.fraction with
  | some e, _ => e.digits ≠ []
  | none, some ds => ds ≠ []
  | none, none => n.whole ≠ []

/-- Whether this byte after the numeral is a digit after a leading zero. -/
def leadingZero (n : Numeral) (b : UInt8) : Bool :=
  n.exponent = none && n.fraction = none && n.whole = [0] && (Decimal.digit? b).isSome

/-- The number that leading digits spell after `start` while it fits into 64 bits, and the digits
that are left. -/
def absorb (start : Nat) : List Nat → Nat × List Nat
  | [] => (start, [])
  | d :: ds =>
    if start * 10 + d < 0x10000000000000000 then absorb (start * 10 + d) ds else (start, d :: ds)

/-- The double `x * 10 ^ exponent`, or a fault where it is too large. Below the smallest power of
ten that a double's quotient allows, the division is done in parts. -/
def scale (x : Float) (exponent : Int) : Except Fault Float :=
  if 308 < exponent then
    if x == 0 then .ok x else .error .numberOutOfRange
  else if 0 ≤ exponent then
    let y := x * Float.ofScientific 1 false exponent.toNat
    if y.isInf then .error .numberOutOfRange else .ok y
  else if -308 ≤ exponent then .ok (x / Float.ofScientific 1 false exponent.natAbs)
  else if x == 0 then .ok x
  else scale (x / Float.ofScientific 1 false 308) (exponent + 308)
termination_by exponent.natAbs
decreasing_by omega

/-- The double that a numeral spells, its sign left out. An exponent beyond 31 bits makes every
number other than zero too large or zero. -/
def magnitude (n : Numeral) : Except Fault Float :=
  let (front, dropped) := absorb 0 n.whole
  let ds := n.fraction.getD []
  let (significand, ignored) := absorb front ds
  let start : Int := (dropped.length : Int) - ((ds.length : Int) - ignored.length)
  let x := significand.toUInt64.toFloat
  match n.exponent with
  | none => scale x start
  | some e =>
    let size := Decimal.value e.digits
    let negative := e.sign = some true
    if size < 0x80000000 then scale x (if negative then start - size else start + size)
    else if significand ≠ 0 ∧ ¬negative then .error .numberOutOfRange
    else .ok 0

/-- The number that a complete numeral spells. -/
def number (n : Numeral) : Except Fault Number :=
  let size := Decimal.value n.whole
  if n.fraction = none ∧ n.exponent = none ∧ n.negative = false ∧ size < 0x10000000000000000 then
    .ok (.integer size)
  else if n.fraction = none ∧ n.exponent = none ∧ n.negative = true ∧ 0 < size ∧
      size ≤ 0x8000000000000000 then
    .ok (.integer (-size))
  else
    match n.magnitude with
    | .error f => .error f
    | .ok x => .ok (.real (if n.negative then -x else x))

end Numeral

end EngineHost.Json
