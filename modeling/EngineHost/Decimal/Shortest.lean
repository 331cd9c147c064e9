import EngineHost.Decimal.Natural

/-!
# Shortest decimal text of a double

A finite double is a whole number times a power of two. The reals that round to it form an
interval, closed exactly when that whole number is even. Its shortest decimal is found on the
coarsest grid of powers of ten with a point in the interval; of two such points the nearer is
taken, and of two equally near ones the even.
-/

namespace EngineHost.Decimal

/-- A positive double as `significand * 2 ^ exponent`. -/
structure Binary where
  /-- The whole number in front of the power of two. -/
  significand : Nat
  /-- The power of two. -/
  exponent : Int
  /-- The gap below the double is half the gap above it. -/
  narrowBelow : Bool

/-- The parts of the positive double with these bits, the sign bit left out. -/
def Binary.ofBits (bits : Nat) : Binary :=
  let fraction : Nat := bits % 0x10000000000000
  let biased : Nat := bits / 0x10000000000000 % 0x800
  if biased = 0 then ⟨fraction, -1074, false⟩
  else ⟨fraction + 0x10000000000000, (biased : Int) - 1075, fraction = 0 && biased != 1⟩

/-- A decimal `digits * 10 ^ exponent`. -/
structure Scaled where
  /-- The whole number in front of the power of ten. -/
  digits : Nat
  /-- The power of ten. -/
  exponent : Int
  deriving Repr

/-- Four times the double and the ends of its interval, over one denominator, in units of
`10 ^ unit`: the lower end, the double, the upper end and the denominator. -/
def Binary.interval (b : Binary) (unit : Int) : Nat × Nat × Nat × Nat :=
  let two := b.exponent - 2
  let num := Nat.pow 2 two.toNat * Nat.pow 10 (-unit).toNat
  let den := Nat.pow 2 (-two).toNat * Nat.pow 10 unit.toNat
  let below := if b.narrowBelow then 1 else 2
  ((4 * b.significand - below) * num, 4 * b.significand * num, (4 * b.significand + 2) * num, den)

/-- The point of the grid `10 ^ unit` that stands for the double, if the interval holds one. -/
def Binary.onGrid? (b : Binary) (unit : Int) : Option Nat :=
  let (lo, mid, hi, den) := b.interval unit
  let closed := b.significand % 2 = 0
  let inside := fun k => (lo < k * den ∨ (closed ∧ lo = k * den)) ∧
    (k * den < hi ∨ (closed ∧ k * den = hi))
  let below := mid / den
  let above := below + 1
  match decide (inside below), decide (inside above) with
  | true, true =>
    let down := mid - below * den
    let up := above * den - mid
    some (if down < up ∨ (down = up ∧ below % 2 = 0) then below else above)
  | true, false => some below
  | false, true => some above
  | false, false => none

/-- The first grid with a point in the interval, from `10 ^ unit` down through `count` finer
grids; without one, zero. -/
def Binary.search (b : Binary) : Nat → Int → Scaled
  | 0, unit => ⟨0, unit⟩
  | count + 1, unit =>
    match b.onGrid? unit with
    | some k => ⟨k, unit⟩
    | none => b.search count (unit - 1)

/-- The shortest decimal of a positive double. No double needs a grid coarser than `10 ^ 309` or
finer than `10 ^ -344`. -/
def Binary.shortest (b : Binary) : Scaled := b.search 654 309

/-- How the text of a double is laid out. -/
structure Layout where
  /-- The least exponent of the first digit that is written positionally. -/
  lowest : Int
  /-- The greatest exponent of the first digit that is written positionally. -/
  highest : Int

/-- The digits with a point after the first `whole` of them; a missing side is a zero. -/
def pointed (ds : List Char) (whole : Nat) : List Char :=
  let front := ds.take whole
  let back := ds.drop whole
  (if front = [] then ['0'] else front) ++ '.' :: (if back = [] then ['0'] else back)

/-- The text of a positive decimal under a layout. -/
def Layout.scaled (layout : Layout) (s : Scaled) : List Char :=
  let ds := (digits s.digits).map digitChar
  let leading := s.exponent + ds.length - 1
  if layout.lowest ≤ leading ∧ leading ≤ layout.highest then
    if 0 ≤ leading then
      pointed (ds ++ List.replicate s.exponent.toNat '0') (leading.toNat + 1)
    else pointed (List.replicate (-leading - 1).toNat '0' ++ ds) 0
  else
    let mantissa := match ds with
      | first :: second :: rest => first :: '.' :: second :: rest
      | short => short
    let sign := if leading < 0 then '-' else '+'
    mantissa ++ 'e' :: sign :: (text leading.natAbs).toList

/-- The text of a double under a layout. -/
def Layout.text (layout : Layout) (x : Float) : String :=
  let bits := x.toBits.toNat
  let sign := if bits / 0x8000000000000000 = 1 then "-" else ""
  let magnitude := bits % 0x8000000000000000
  let body :=
    if magnitude = 0 then "0.0"
    else if magnitude / 0x10000000000000 = 2047 then
      if magnitude % 0x10000000000000 = 0 then "inf" else "NaN"
    else String.ofList (layout.scaled (Binary.ofBits magnitude).shortest)
  sign ++ body

end EngineHost.Decimal
