import EngineHost.Gzip.Bits
import EngineHost.Gzip.Fault

/-!
# Canonical prefix codes

A canonical code is given by the lengths of its code words. Words of one length are consecutive
numbers in the order of their symbols, and shorter words come first. Main statement: reading a
symbol takes at least one bit.
-/

namespace EngineHost.Gzip

/-- A canonical prefix code. -/
structure Code where
  /-- How many words there are of each length from one on. -/
  counts : List Nat
  /-- The symbols in the order of their words. -/
  symbols : Array Nat
  deriving Repr

namespace Code

/-- The greatest length of a word. -/
def maxLength : Nat := 15

/-- The symbols whose words have this length. -/
def symbolsOfLength (lengths : List Nat) (length : Nat) : List Nat :=
  (lengths.zipIdx.filter fun (l, _) => l = length).map (·.2)

/-- The code in which the symbol `i` has a word of length `lengths[i]`, or none if that is zero. -/
def ofLengths (lengths : List Nat) : Code :=
  let all := List.range' 1 maxLength
  { counts := all.map fun length => lengths.count length
    symbols := (all.flatMap (symbolsOfLength lengths)).toArray }

/-- The share of all words of the greatest length that begin with a word of the code. -/
def coverage (code : Code) : Nat :=
  code.counts.foldl (fun total count => 2 * (total + count)) 0

/-- Whether every bit string begins with exactly one word of the code. -/
def isComplete (code : Code) : Bool := code.coverage = Nat.pow 2 (maxLength + 1)

/-- Whether a code has no word, or a single one, of one bit. -/
def isTrivial (code : Code) : Bool :=
  code.symbols.isEmpty || (code.symbols.size = 1 && code.counts.head? = some 1)

/-- Whether a code may stand for literals or distances: it is complete, or trivial. -/
def isUsable (code : Code) : Bool := code.isComplete || code.isTrivial

/-- Reads a symbol, given the counts of the words that are longer than the bits read so far, these
bits as a number, the first word of the next length, and the number of shorter words. Once no word
is left that the bits could belong to, no further bit is asked for. -/
def walk (symbols : Array Nat) : List Nat → Nat → Nat → Nat → Bits → Except Fault (Nat × Bits)
  | [], _, _, _, _ => .error .corruptData
  | count :: counts, word, first, index, bits =>
    match bits.next? with
    | none => .error .incompleteData
    | some (bit, rest) =>
      let longer := 2 * word + bit.toNat
      if longer < first + count then .ok (symbols.getD (index + (longer - first)) 0, rest)
      else if symbols.size ≤ index + count then .error .corruptData
      else walk symbols counts longer (2 * (first + count)) (index + count) rest

/-- Reads a symbol. -/
def read (code : Code) (bits : Bits) : Except Fault (Nat × Bits) :=
  walk code.symbols code.counts 0 0 0 bits

/-- Reading a symbol takes at least one bit. -/
theorem size_lt_of_walk {symbols : Array Nat} {counts : List Nat} {word first index symbol : Nat}
    {bits rest : Bits} (h : walk symbols counts word first index bits = .ok (symbol, rest)) :
    rest.size < bits.size := by
  induction counts generalizing word first index bits with
  | nil => simp [walk] at h
  | cons count counts ih =>
    simp only [walk] at h
    split at h
    · simp at h
    · rename_i bit mid hnext
      have hmid := Bits.size_of_next? hnext
      split at h
      · simp only [Except.ok.injEq, Prod.mk.injEq] at h
        obtain ⟨-, rfl⟩ := h
        omega
      · split at h
        · simp at h
        · have hrest := ih h
          omega

/-- Reading a symbol takes at least one bit. -/
theorem size_lt_of_read {code : Code} {symbol : Nat} {bits rest : Bits}
    (h : code.read bits = .ok (symbol, rest)) : rest.size < bits.size :=
  size_lt_of_walk h

end Code

end EngineHost.Gzip
