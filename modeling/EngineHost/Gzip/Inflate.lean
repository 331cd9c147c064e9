import EngineHost.Gzip.Huffman

/-!
# Inflating compressed data

Compressed data is a sequence of blocks. A block is stored as it is, or is written as literals and
as references to earlier output, with a fixed code or with a code of its own. A reference that
reaches back behind the start of the output finds zeros there.
-/

namespace EngineHost.Gzip

/-- The next `count` bits as a number. -/
def readBits (count : Nat) (bits : Bits) : Except Fault (Nat × Bits) :=
  match bits.take? count with
  | none => .error .incompleteData
  | some found => .ok found

/-- Reading a number takes its bits. -/
theorem size_of_readBits {count n : Nat} {bits rest : Bits}
    (h : readBits count bits = .ok (n, rest)) : rest.size + count = bits.size := by
  unfold readBits at h
  split at h
  · simp at h
  · rename_i found htake
    cases h
    exact Bits.size_of_take? htake

/-- The least length and the extra bits of each length symbol, from 257 on. -/
def lengthTable : List (Nat × Nat) :=
  [(3, 0), (4, 0), (5, 0), (6, 0), (7, 0), (8, 0), (9, 0), (10, 0), (11, 1), (13, 1), (15, 1),
    (17, 1), (19, 2), (23, 2), (27, 2), (31, 2), (35, 3), (43, 3), (51, 3), (59, 3), (67, 4),
    (83, 4), (99, 4), (115, 4), (131, 5), (163, 5), (195, 5), (227, 5), (258, 0)]

/-- The least distance and the extra bits of each distance symbol. -/
def distanceTable : List (Nat × Nat) :=
  [(1, 0), (2, 0), (3, 0), (4, 0), (5, 1), (7, 1), (9, 2), (13, 2), (17, 3), (25, 3), (33, 4),
    (49, 4), (65, 5), (97, 5), (129, 6), (193, 6), (257, 7), (385, 7), (513, 8), (769, 8),
    (1025, 9), (1537, 9), (2049, 10), (3073, 10), (4097, 11), (6145, 11), (8193, 12), (12289, 12),
    (16385, 13), (24577, 13)]

/-- The value of a symbol with extra bits. -/
def readExtended (table : List (Nat × Nat)) (symbol : Nat) (bits : Bits) :
    Except Fault (Nat × Bits) :=
  match table[symbol]? with
  | none => .error .corruptData
  | some (least, extra) => (readBits extra bits).map fun (n, rest) => (least + n, rest)

/-- Reading the value of a symbol gives no bits back. -/
theorem size_le_of_readExtended {table : List (Nat × Nat)} {symbol n : Nat} {bits rest : Bits}
    (h : readExtended table symbol bits = .ok (n, rest)) : rest.size ≤ bits.size := by
  unfold readExtended at h
  split at h
  · simp at h
  · rename_i least extra _
    cases hread : readBits extra bits with
    | error f => simp [hread, Except.map] at h
    | ok found =>
      obtain ⟨m, last⟩ := found
      simp only [hread, Except.map, Except.ok.injEq, Prod.mk.injEq] at h
      obtain ⟨-, rfl⟩ := h
      have hsize := size_of_readBits hread
      omega

/-- The output after `count` bytes are repeated from `distance` bytes back. -/
def repeatBack (distance : Nat) : Nat → Array UInt8 → Array UInt8
  | 0, out => out
  | count + 1, out =>
    let b := if distance ≤ out.size then out.getD (out.size - distance) 0 else 0
    repeatBack distance count (out.push b)

/-- What a symbol of a block means. -/
inductive Meaning where
  /-- A byte of output. -/
  | literal (b : UInt8)
  /-- The end of the block. -/
  | finish
  /-- A reference to earlier output, by the index of its length. -/
  | reference (index : Nat)

/-- The meaning of a symbol. -/
def Meaning.ofSymbol (symbol : Nat) : Meaning :=
  if symbol < 256 then .literal (UInt8.ofNat symbol)
  else if symbol = 256 then .finish
  else .reference (symbol - 257)

/-- A reference to earlier output: its length, by the index that was read, and its distance. -/
def readReference (distances : Code) (index : Nat) (bits : Bits) :
    Except Fault ((Nat × Nat) × Bits) :=
  match readExtended lengthTable index bits with
  | .error f => .error f
  | .ok (length, afterLength) =>
    match distances.read afterLength with
    | .error f => .error f
    | .ok (distanceSymbol, afterSymbol) =>
      match readExtended distanceTable distanceSymbol afterSymbol with
      | .error f => .error f
      | .ok (distance, rest) => .ok ((length, distance), rest)

/-- Reading a reference gives no bits back. -/
theorem size_le_of_readReference {distances : Code} {index : Nat} {found : Nat × Nat}
    {bits rest : Bits} (h : readReference distances index bits = .ok (found, rest)) :
    rest.size ≤ bits.size := by
  unfold readReference at h
  split at h
  · simp at h
  · rename_i length afterLength hlength
    split at h
    · simp at h
    · rename_i distanceSymbol afterSymbol hsymbol
      split at h
      · simp at h
      · rename_i distance last hdistance
        simp only [Except.ok.injEq, Prod.mk.injEq] at h
        obtain ⟨-, rfl⟩ := h
        have h1 := size_le_of_readExtended hlength
        have h2 := Code.size_lt_of_read hsymbol
        have h3 := size_le_of_readExtended hdistance
        omega

set_option linter.unusedVariables false in
/-- The output after the literals and references of a block, up to its end symbol. -/
def readSymbols (literals distances : Code) (out : Array UInt8) (bits : Bits) :
    Except Fault (Array UInt8 × Bits) :=
  match hsymbol : literals.read bits with
  | .error f => .error f
  | .ok (symbol, rest) =>
    match Meaning.ofSymbol symbol with
    | .literal b => readSymbols literals distances (out.push b) rest
    | .finish => .ok (out, rest)
    | .reference index =>
      match hreference : readReference distances index rest with
      | .error f => .error f
      | .ok ((length, distance), last) =>
        readSymbols literals distances (repeatBack distance length out) last
termination_by bits.size
decreasing_by
  · exact Code.size_lt_of_read hsymbol
  · exact Nat.lt_of_le_of_lt (size_le_of_readReference hreference) (Code.size_lt_of_read hsymbol)

/-- The fixed code of literals and lengths. -/
def fixedLiterals : Code :=
  Code.ofLengths (List.replicate 144 8 ++ List.replicate 112 9 ++ List.replicate 24 7 ++
    List.replicate 8 8)

/-- The fixed code of distances. -/
def fixedDistances : Code := Code.ofLengths (List.replicate 32 5)

/-- The order in which the lengths of the code for code lengths are written. -/
def lengthOrder : List Nat := [16, 17, 18, 0, 8, 7, 9, 6, 10, 5, 11, 4, 12, 3, 13, 2, 14, 1, 15]

/-- The next `count` numbers of three bits. -/
def readTriples : Nat → Bits → Except Fault (List Nat × Bits)
  | 0, bits => .ok ([], bits)
  | count + 1, bits =>
    match readBits 3 bits with
    | .error f => .error f
    | .ok (n, rest) => (readTriples count rest).map fun (ns, last) => (n :: ns, last)

/-- How often a length is repeated by the symbols 16, 17 and 18: the bits and the least number. -/
def repeatTable : Nat → Nat × Nat
  | 16 => (2, 3)
  | 17 => (3, 3)
  | _ => (7, 11)

set_option linter.unusedVariables false in
/-- The code lengths after those in `done`, latest first, until there are `total` of them. -/
def readLengths (code : Code) (total : Nat) (done : List Nat) (bits : Bits) :
    Except Fault (List Nat × Bits) :=
  if total ≤ done.length then
    if done.length = total then .ok (done.reverse, bits) else .error .corruptData
  else
    match hsymbol : code.read bits with
    | .error f => .error f
    | .ok (symbol, rest) =>
      if symbol < 16 then readLengths code total (symbol :: done) rest
      else if symbol = 16 ∧ done = [] then .error .corruptData
      else
        let (extra, least) := repeatTable symbol
        let length := if symbol = 16 then done.headD 0 else 0
        match hcount : readBits extra rest with
        | .error f => .error f
        | .ok (n, last) => readLengths code total (List.replicate (least + n) length ++ done) last
termination_by bits.size
decreasing_by
  · exact Code.size_lt_of_read hsymbol
  · have hlast := size_of_readBits hcount
    have hrest := Code.size_lt_of_read hsymbol
    omega

/-- The two codes that a block brings along. -/
def readCodes (bits : Bits) : Except Fault ((Code × Code) × Bits) := do
  let (literalCount, bits) ← readBits 5 bits
  let (distanceCount, bits) ← readBits 5 bits
  let (lengthCount, bits) ← readBits 4 bits
  if 286 < literalCount + 257 ∨ 30 < distanceCount + 1 then throw .corruptData
  let (triples, bits) ← readTriples (lengthCount + 4) bits
  let written := lengthOrder.zip triples
  let code := Code.ofLengths ((List.range 19).map fun symbol => (written.lookup symbol).getD 0)
  if !code.isComplete then throw .corruptData
  let (lengths, bits) ← readLengths code (literalCount + 257 + (distanceCount + 1)) [] bits
  let literals := Code.ofLengths (lengths.take (literalCount + 257))
  let distances := Code.ofLengths (lengths.drop (literalCount + 257))
  if !literals.isUsable || !distances.isUsable then throw .corruptData
  return ((literals, distances), bits)

/-- The contents of a stored block: a length, its complement, and as many bytes. -/
def readStored (bytes : Bytes) : Except Fault (Bytes × Bytes) :=
  match bytes with
  | l0 :: l1 :: n0 :: n1 :: rest =>
    let length := l0.toNat + 256 * l1.toNat
    if length + (n0.toNat + 256 * n1.toNat) ≠ 0xFFFF then .error .corruptData
    else if rest.length < length then .error .incompleteData
    else .ok (rest.take length, rest.drop length)
  | _ => .error .incompleteData

/-- The output after a block of the given kind. -/
def readBlock (kind : Nat) (out : Array UInt8) (bits : Bits) : Except Fault (Array UInt8 × Bits) :=
  match kind with
  | 0 => (readStored bits.aligned).map fun (bytes, rest) => (out ++ bytes.toArray, ⟨[], rest⟩)
  | 1 => readSymbols fixedLiterals fixedDistances out bits
  | 2 =>
    match readCodes bits with
    | .error f => .error f
    | .ok ((literals, distances), rest) => readSymbols literals distances out rest
  | _ => .error .corruptData

/-- The output after `limit` blocks at most, and the bytes after the last block. A block takes at
least three bits, so there are fewer blocks than bits. -/
def readBlocks : Nat → Array UInt8 → Bits → Except Fault (Array UInt8 × Bytes)
  | 0, _, _ => .error .incompleteData
  | limit + 1, out, bits =>
    match readBits 3 bits with
    | .error f => .error f
    | .ok (head, rest) =>
      match readBlock (head / 2) out rest with
      | .error f => .error f
      | .ok (longer, last) =>
        if head % 2 = 1 then .ok (longer, last.aligned) else readBlocks limit longer last

/-- The output of compressed data, and the bytes after it. -/
def inflate (bytes : Bytes) : Except Fault (Bytes × Bytes) :=
  (readBlocks (8 * bytes.length + 1) #[] ⟨[], bytes⟩).map fun (out, rest) => (out.toList, rest)

end EngineHost.Gzip
