import EngineHost.Proofs.Contract.EntryPoints
import EngineHost.Proofs.Contract.Places
import EngineHost.Proofs.Contract.RoundTrip

/-!
# Encoding as a normal form

A contract can be written in many ways: records as arrays, keys in either spelling, numbers and
texts with or without escapes. Whatever is accepted is encoded in one way, which is decoded to the
same contract. Offsets within a slot are taken from the text as they stand there, and only if they
lie within the slot.
-/

namespace EngineHost

open Json

/-! ### Offsets within a slot -/

section Readers

variable {ν : Type} [Source ν]

/-- A natural number is read from the integer that it is. -/
theorem Json.Read.natural_eq_ok_iff {bound : Nat} {expected : Expected} {v : ν} {n : Nat} :
    Read.natural bound expected v = .ok n ↔
      Source.view v = .ok (.number (.integer n)) ∧ n < bound := by
  unfold Read.natural
  split
  case h_1 f hview => simp [hview]
  case h_2 i hview =>
    rw [hview]
    split
    case isTrue hbounds =>
      simp only [Except.ok.injEq, View.number.injEq, Number.integer.injEq]
      omega
    case isFalse hbounds =>
      simp only [Except.ok.injEq, View.number.injEq, Number.integer.injEq, reduceCtorEq, false_iff]
      omega
  case h_3 other hother hview =>
    rw [hview]
    simp only [Except.ok.injEq, reduceCtorEq, false_iff]
    rintro ⟨rfl, -⟩
    exact hother _ rfl

/-- The bytes of a slot are written as the integers from `0` to `31`. -/
theorem Wire.slotOffset_eq_ok_iff {v : ν} {offset : Fin 32} :
    Wire.slotOffset v = .ok offset ↔ Source.view v = .ok (.number (.integer offset.val)) := by
  unfold Wire.slotOffset
  split
  case h_1 f hread =>
    simp only [reduceCtorEq, false_iff]
    intro hview
    rw [Read.natural_eq_ok_iff.mpr ⟨hview, by omega⟩] at hread
    cases hread
  case h_2 n hread =>
    obtain ⟨hview, -⟩ := Read.natural_eq_ok_iff.mp hread
    rw [hview]
    split
    case isTrue hn =>
      simp only [Except.ok.injEq, View.number.injEq, Number.integer.injEq, Fin.ext_iff]
      omega
    case isFalse hn =>
      simp only [Except.ok.injEq, View.number.injEq, Number.integer.injEq, reduceCtorEq, false_iff]
      omega

/-- What an optional reader finds is what its item finds. -/
theorem Json.Read.eq_ok_of_optional {α : Type} {item : ν → Except Fault α} {v : ν} {a : α}
    (hread : Read.optional item v = .ok (some a)) : item v = .ok a := by
  unfold Read.optional at hread
  split at hread
  case h_1 => cases hread
  case h_2 => cases hread
  case h_3 =>
    obtain ⟨b, hb, hsome⟩ := map_eq_ok_iff.mp hread
    cases hsome
    exact hb

end Readers

/-- The offset of a storage record stands in the record's node, as an integer. -/
def StorageRecord.OffsetStands (r : StorageRecord) (node : Node) : Prop :=
  ∃ v, node.Gives ["offset"] 1 v ∧ Source.view v = .ok (.number (.integer r.offset.val))

/-- The storage records of a contract stand in the contract's node, each with its offset. -/
def Contract.OffsetsStand (c : Contract) (root : Node) : Prop :=
  ∀ records, c.storage = some records →
    ∃ nodes, root.Gives ["storage"] 1 (.array nodes .closed) ∧
      List.Forall₂ StorageRecord.OffsetStands records nodes

/-- The records are taken over as they are. -/
theorem Contract.ofRaw_storage {raw : Wire.RawContract} {c : Contract}
    (hconvert : Contract.ofRaw raw = .ok c) : c.storage = raw.storage := by
  unfold Contract.ofRaw at hconvert
  split at hconvert
  case h_1 =>
    cases hconvert
    rfl
  case h_2 =>
    obtain ⟨blocks, -, rfl⟩ := map_eq_ok_iff.mp hconvert
    rfl

namespace Wire

/-- The offset of a storage record that has been read stands in its node. -/
theorem storageRecord_offsetStands {node : Node} {r : StorageRecord}
    (hread : storageRecord.read node = .ok r) : r.OffsetStands node := by
  obtain ⟨d, hfills, hbuild⟩ := Record.read_eq_ok_iff.mp hread
  have hoffset : d.offset = some r.offset := by
    obtain ⟨_ | slot, _ | offset, _ | type, reads, writes⟩ := d
    all_goals cases hbuild
    rfl
  have hfield : storageRecord.fields[1]? = some _ := rfl
  obtain ⟨v, hgives, hv⟩ := storageRecord_laidOut.exists_of_fills hfield hfills hoffset
  exact ⟨v, hgives, slotOffset_eq_ok_iff.mp hv⟩

/-- The offsets of all storage records of a contract that has been read stand in its root. -/
theorem contractRecord_offsetsStand {root : Node} {raw : RawContract} {c : Contract}
    (hread : contractRecord.read root = .ok raw) (hconvert : Contract.ofRaw raw = .ok c) :
    c.OffsetsStand root := by
  intro records hrecords
  obtain ⟨d, hfills, hbuild⟩ := Record.read_eq_ok_iff.mp hread
  have hraw : raw.storage = some records := by rw [← Contract.ofRaw_storage hconvert, hrecords]
  have hstorage : d.storage = some (some records) := by
    cases hbuild
    simpa [Option.getD_eq_iff] using hraw
  have hfield : contractRecord.fields[1]? = some _ := rfl
  obtain ⟨v, hgives, hv⟩ := contractRecord_laidOut.exists_of_fills hfield hfills hstorage
  have hlist := Read.eq_ok_of_optional hv
  obtain ⟨nodes, rfl, hnodes⟩ := Read.list_eq_ok_iff.mp hlist
  exact ⟨nodes, hgives, hnodes.imp fun _ _ => storageRecord_offsetStands⟩

end Wire

/-! ### Encoding what was decoded -/

/-- Whatever text a contract was decoded from, its offsets lie within their slots and are those of
the text, and it is encoded as a text that is decoded to the same contract and so encoded the same
again. The same goes for a single block. -/
theorem encode_normalForm (p : Bytes) :
    (∀ c, Contract.decode p = .ok c →
      (∀ r ∈ c.storage.getD [], r.offset.val ≤ 31) ∧
      c.OffsetsStand (Document.ofBytes p).root ∧
      ∃ q, c.encode = q ∧ Contract.decode q = .ok c ∧
        ∀ c', Contract.decode q = .ok c' → c'.encode = q) ∧
    ∀ b, Block.decode p = .ok b → Block.decode b.encode = .ok b := by
  constructor
  · intro c hdecode
    obtain ⟨raw, hwhole, hconvert⟩ := decodeWhole_eq_ok_iff.mp hdecode
    have hread := (readWhole_eq_ok_iff.mp hwhole).1
    have hencode := c.decode_printed
    refine ⟨fun r _ => Nat.le_of_lt_succ r.offset.isLt,
      Wire.contractRecord_offsetsStand hread hconvert, c.encode, rfl, hencode, fun c' hc' => ?_⟩
    obtain rfl : c = c' := Except.ok.inj (hencode.symm.trans hc')
    rfl
  · intro b _
    exact b.decode_printed

/-- A contract with two variables, at the ends of a slot. -/
def twoVariables : Contract where
  storage := some [⟨⟨List.replicate 32 0, rfl⟩, 31, "bool", [], []⟩,
    ⟨⟨List.replicate 32 0, rfl⟩, 0, "uint8", [⟨[0x70, 0xa0, 0x82, 0x31], rfl⟩], []⟩]

/-- A text of this contract in which the contract and a variable are written as arrays. -/
def twoVariablesText : Bytes :=
  Bytes.ofText "[null,[[\"0\",31,\"bool\"],\x7b\"reads\":[\"0x70A08231\"],\"type\":" ++
    Bytes.ofText "\"\\u0075int8\",\"x\":[],\"offset\":0,\"slot\":\"0X00\"\x7d]]"

set_option maxRecDepth 4000 in
/-- The text of two variables and a block that is written as an array have normal forms. -/
theorem encode_normalForm_twoVariables :
    Contract.decode twoVariablesText = .ok twoVariables ∧
      twoVariables.OffsetsStand (Document.ofBytes twoVariablesText).root ∧
      Contract.decode twoVariables.encode = .ok twoVariables ∧
      Block.decode (Bytes.ofText "[0,1,\"Jump\",[7]]") = .ok ⟨0, 1, .jump 7⟩ ∧
      Block.decode (Block.mk 0 1 (.jump 7)).encode = .ok ⟨0, 1, .jump 7⟩ := by
  have hcontract : Contract.decode twoVariablesText = .ok twoVariables := rfl
  have hblock : Block.decode (Bytes.ofText "[0,1,\"Jump\",[7]]") = .ok ⟨0, 1, .jump 7⟩ := rfl
  obtain ⟨-, hoffsets, _, rfl, hdecode, -⟩ := (encode_normalForm twoVariablesText).1 _ hcontract
  exact ⟨hcontract, hoffsets, hdecode, hblock, (encode_normalForm _).2 _ hblock⟩

end EngineHost
