import EngineHost.Gzip.Inflate
import EngineHost.Gzip.Store

/-!
# Stored blocks

Data may be cut into stored blocks anywhere, also into empty ones. Inflating the blocks gives the
data back and leaves the bytes after the last block unread. If the blocks are cut off anywhere, the
data is found incomplete: neither the end of a block nor the end of the input is taken for the end
of the data.
-/

namespace EngineHost.Gzip

/-- A stored block. -/
structure StoredBlock where
  /-- The five bits between the head of the block and the next byte, which mean nothing. -/
  padding : Fin 32
  /-- The bytes that the block holds. -/
  contents : Bytes
  /-- Their number can be written in two bytes. -/
  length_le : contents.length ≤ storedLimit

namespace StoredBlock

/-- The length of the contents and its complement. -/
def lengths (block : StoredBlock) : Bytes :=
  shortBytes block.contents.length ++ shortBytes (storedLimit - block.contents.length)

/-- The bytes of a block: whether it is the last, two zero bits for its kind, the padding, the
lengths and the contents. -/
def bytes (last : Bool) (block : StoredBlock) : Bytes :=
  UInt8.ofNat (last.toNat + 8 * block.padding) :: (block.lengths ++ block.contents)

/-- A block has five bytes besides its contents. -/
theorem length_bytes (last : Bool) (block : StoredBlock) :
    (block.bytes last).length = 5 + block.contents.length := by
  simp [bytes, lengths, shortBytes]
  omega

end StoredBlock

/-- The bytes of a sequence of blocks, of which the one in the end is marked as the last. -/
def storedBody (blocks : List StoredBlock) (final : StoredBlock) : Bytes :=
  blocks.flatMap (·.bytes false) ++ final.bytes true

/-- The data that a sequence of blocks holds. -/
def storedData (blocks : List StoredBlock) (final : StoredBlock) : Bytes :=
  blocks.flatMap (·.contents) ++ final.contents

/-- The bytes of a sequence are those of its first block and of the rest. -/
theorem storedBody_cons (block : StoredBlock) (blocks : List StoredBlock) (final : StoredBlock) :
    storedBody (block :: blocks) final = block.bytes false ++ storedBody blocks final := by
  simp [storedBody]

/-- The data of a sequence is that of its first block and of the rest. -/
theorem storedData_cons (block : StoredBlock) (blocks : List StoredBlock) (final : StoredBlock) :
    storedData (block :: blocks) final = block.contents ++ storedData blocks final := by
  simp [storedData]

/-- A sequence has more bytes than blocks before its last one. -/
theorem length_lt_length_storedBody (blocks : List StoredBlock) (final : StoredBlock) :
    blocks.length < (storedBody blocks final).length := by
  induction blocks with
  | nil =>
    have hbody : storedBody [] final = final.bytes true := rfl
    rw [hbody, List.length_nil, StoredBlock.length_bytes]
    omega
  | cons block blocks ih =>
    rw [storedBody_cons, List.length_append, List.length_cons, StoredBlock.length_bytes]
    omega

/-! ### One block -/

/-- The first three bits of a byte are its remainder modulo eight. -/
theorem readBits_three (b : UInt8) (bytes : Bytes) :
    readBits 3 ⟨[], b :: bytes⟩ = .ok (b.toNat % 8, ⟨(Bits.ofByte b).drop 3, bytes⟩) := by
  have hbits : 2 * (2 * (2 * 0 + (b.toNat.testBit 2).toNat) + (b.toNat.testBit 1).toNat) +
      (b.toNat.testBit 0).toNat = b.toNat % 8 := by
    simp only [Nat.toNat_testBit]
    omega
  rw [← hbits]
  rfl

/-- Where the lengths of a block stand, its contents are what follows them. -/
theorem readStored_lengths (block : StoredBlock) (tail : Bytes) :
    readStored (block.lengths ++ tail) =
      if tail.length < block.contents.length then .error .incompleteData
      else .ok (tail.take block.contents.length, tail.drop block.contents.length) := by
  have hshort : ∀ n ≤ storedLimit,
      (UInt8.ofNat n).toNat + 256 * (UInt8.ofNat (n / 256)).toNat = n := by
    intro n hn
    rw [storedLimit] at hn
    simp only [UInt8.toNat_ofNat']
    omega
  have hlength := hshort _ block.length_le
  have hcomplement := hshort (storedLimit - block.contents.length) (Nat.sub_le _ _)
  have hsum : block.contents.length + (storedLimit - block.contents.length) = 0xFFFF :=
    Nat.add_sub_of_le block.length_le
  simp only [StoredBlock.lengths, shortBytes, List.cons_append, List.nil_append, readStored,
    hlength, hcomplement, hsum, ne_eq, not_true_eq_false, if_false]

/-- The lengths of a block cannot be read from fewer than four bytes. -/
theorem readStored_of_length_lt {bytes : Bytes} (h : bytes.length < 4) :
    readStored bytes = .error .incompleteData := by
  rcases bytes with _ | ⟨_, _ | ⟨_, _ | ⟨_, _ | ⟨_, _⟩⟩⟩⟩
  case cons.cons.cons.cons =>
    simp only [List.length_cons] at h
    omega
  all_goals rfl

/-- The head of a stored block says that it is stored, and whether it is the last. -/
theorem readBlocks_head (block : StoredBlock) (last : Bool) (limit : Nat) (out : Array UInt8)
    (tail : Bytes) :
    readBlocks (limit + 1) out ⟨[], UInt8.ofNat (last.toNat + 8 * block.padding) :: tail⟩ =
      (readStored tail).bind fun found =>
        if last then .ok (out ++ found.1.toArray, found.2)
        else readBlocks limit (out ++ found.1.toArray) ⟨[], found.2⟩ := by
  have hhead : (UInt8.ofNat (last.toNat + 8 * block.padding)).toNat % 8 = last.toNat := by
    have := last.toNat_lt
    rw [UInt8.toNat_ofNat']
    omega
  have hkind : last.toNat / 2 = 0 := Nat.div_eq_of_lt last.toNat_lt
  rw [readBlocks, readBits_three, hhead]
  simp only [hkind, readBlock, Bits.aligned]
  cases readStored tail with
  | error fault => rfl
  | ok found => cases last <;> rfl

/-- A block adds its contents to the output, and reading goes on unless it is the last. -/
theorem readBlocks_block (block : StoredBlock) (last : Bool) (limit : Nat) (out : Array UInt8)
    (rest : Bytes) :
    readBlocks (limit + 1) out ⟨[], block.bytes last ++ rest⟩ =
      if last then .ok (out ++ block.contents.toArray, rest)
      else readBlocks limit (out ++ block.contents.toArray) ⟨[], rest⟩ := by
  have hlong : ¬ (block.contents ++ rest).length < block.contents.length := by
    rw [List.length_append]
    omega
  rw [StoredBlock.bytes, List.cons_append, readBlocks_head, List.append_assoc, readStored_lengths,
    if_neg hlong, List.take_left, List.drop_left]
  rfl

/-- A block that is cut off is incomplete. -/
theorem readBlocks_block_take (block : StoredBlock) (last : Bool) {n : Nat}
    (hn : n < (block.bytes last).length) (limit : Nat) (out : Array UInt8) :
    readBlocks limit out ⟨[], (block.bytes last).take n⟩ = .error .incompleteData := by
  rw [StoredBlock.length_bytes] at hn
  have hlengths : block.lengths.length = 4 := rfl
  cases limit with
  | zero => rfl
  | succ limit =>
    cases n with
    | zero => rfl
    | succ n =>
      have hstored : readStored ((block.lengths ++ block.contents).take n) =
          .error .incompleteData := by
        by_cases hshort : n < 4
        · apply readStored_of_length_lt
          rw [List.length_take]
          omega
        · rw [List.take_append, hlengths, List.take_of_length_le (by omega), readStored_lengths,
            if_pos]
          rw [List.length_take]
          omega
      rw [StoredBlock.bytes, List.take_succ_cons, readBlocks_head, hstored]
      rfl

/-! ### Sequences of blocks -/

/-- Reading a sequence of blocks adds its data to the output and stops after the last block. -/
theorem readBlocks_storedBody (blocks : List StoredBlock) (final : StoredBlock) {limit : Nat}
    (hlimit : blocks.length < limit) (out : Array UInt8) (rest : Bytes) :
    readBlocks limit out ⟨[], storedBody blocks final ++ rest⟩ =
      .ok (out ++ (storedData blocks final).toArray, rest) := by
  obtain ⟨limit, rfl⟩ := Nat.exists_eq_add_one_of_ne_zero (Nat.ne_zero_of_lt hlimit)
  induction blocks generalizing limit out with
  | nil =>
    have hbody : storedBody [] final = final.bytes true := rfl
    have hdata : storedData [] final = final.contents := rfl
    rw [hbody, hdata, readBlocks_block, if_pos rfl]
  | cons block blocks ih =>
    rw [List.length_cons] at hlimit
    obtain ⟨fewer, rfl⟩ := Nat.exists_eq_add_one_of_ne_zero (n := limit) (by omega)
    rw [storedBody_cons, List.append_assoc, readBlocks_block, if_neg Bool.false_ne_true,
      ih _ _ (by omega), storedData_cons]
    simp

/-- A sequence of blocks that is cut off is incomplete, also where a block ends. -/
theorem readBlocks_storedBody_take (blocks : List StoredBlock) (final : StoredBlock) {n : Nat}
    (hn : n < (storedBody blocks final).length) (limit : Nat) (out : Array UInt8) :
    readBlocks limit out ⟨[], (storedBody blocks final).take n⟩ = .error .incompleteData := by
  induction blocks generalizing n limit out with
  | nil => exact readBlocks_block_take final true hn limit out
  | cons block blocks ih =>
    rw [storedBody_cons] at hn ⊢
    by_cases hcut : n < (block.bytes false).length
    · rw [List.take_append_of_le_length (Nat.le_of_lt hcut)]
      exact readBlocks_block_take block false hcut limit out
    · -- The first block is whole, so the cut is in the blocks after it.
      rw [List.length_append] at hn
      cases limit with
      | zero => rfl
      | succ limit =>
        rw [List.take_append, List.take_of_length_le (by omega), readBlocks_block,
          if_neg Bool.false_ne_true]
        exact ih (by omega) _ _

/-- Inflating a sequence of blocks gives its data, and leaves what follows. -/
theorem inflate_storedBody (blocks : List StoredBlock) (final : StoredBlock) (rest : Bytes) :
    inflate (storedBody blocks final ++ rest) = .ok (storedData blocks final, rest) := by
  have hblocks := length_lt_length_storedBody blocks final
  have hlimit : blocks.length < 8 * (storedBody blocks final ++ rest).length + 1 := by
    rw [List.length_append]
    omega
  rw [inflate, readBlocks_storedBody blocks final hlimit]
  simp [Except.map]

/-- Inflating a sequence of blocks that is cut off fails. -/
theorem inflate_storedBody_take (blocks : List StoredBlock) (final : StoredBlock) {n : Nat}
    (hn : n < (storedBody blocks final).length) :
    inflate ((storedBody blocks final).take n) = .error .incompleteData := by
  rw [inflate, readBlocks_storedBody_take blocks final hn]
  rfl

end EngineHost.Gzip
