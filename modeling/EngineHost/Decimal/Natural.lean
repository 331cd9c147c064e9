/-!
# Decimal digits of natural numbers

A natural number is written with its decimal digits, the most significant first and without
leading zeros, and a digit list is read back by Horner's rule. Main statement: reading undoes
writing.
-/

namespace EngineHost.Decimal

/-- The decimal digits of a number, the most significant first. -/
def digits (n : Nat) : List Nat :=
  if n < 10 then [n] else digits (n / 10) ++ [n % 10]

/-- The number that a digit list spells after the digits of `start`. -/
def valueFrom (start : Nat) (ds : List Nat) : Nat := ds.foldl (fun n d => n * 10 + d) start

/-- The number that a digit list spells. -/
def value (ds : List Nat) : Nat := valueFrom 0 ds

/-- The character of a decimal digit. -/
def digitChar (d : Nat) : Char := Char.ofNat (48 + d)

/-- The digit that a byte spells in ASCII. -/
def digit? (b : UInt8) : Option Nat :=
  if 48 ≤ b && b ≤ 57 then some (b.toNat - 48) else none

/-- The ASCII byte of a decimal digit. -/
def digitByte (d : Nat) : UInt8 := UInt8.ofNat (48 + d)

/-- The digits that a byte string spells, if it holds nothing but ASCII digits. -/
def digits? (bs : List UInt8) : Option (List Nat) := bs.mapM digit?

/-- A natural number in decimal notation. -/
def text (n : Nat) : String := String.ofList ((digits n).map digitChar)

/-- An integer in decimal notation. -/
def intText (i : Int) : String := if i < 0 then "-" ++ text i.natAbs else text i.natAbs

/-- Reading the digits of a number gives the number. -/
theorem value_digits (n : Nat) : value (digits n) = n := by
  fun_induction digits n with
  | case1 n h => simp [value, valueFrom]
  | case2 n h ih =>
    simp only [value, valueFrom, List.foldl_append, List.foldl_cons, List.foldl_nil] at ih ⊢
    omega

/-- Every member of a digit list is a decimal digit. -/
theorem lt_ten_of_mem_digits {n d : Nat} (hd : d ∈ digits n) : d < 10 := by
  fun_induction digits n with
  | case1 n h =>
    have hdn : d = n := by simpa using hd
    omega
  | case2 n h ih =>
    rcases List.mem_append.mp hd with hfront | hlast
    · exact ih hfront
    · have hlast' : d = n % 10 := by simpa using hlast
      omega

end EngineHost.Decimal
