import EngineHost.Module
import EngineHost.Proofs.Gzip.Checksum
import EngineHost.Proofs.Gzip.Stored
import EngineHost.Proofs.Memory

/-!
# Members without compression

A member with a plain header, stored blocks and the trailer of their data is as good as the data
itself, whatever follows the member. A member that is cut off or has another trailer is no module.
All data has a trailer, and only one, and what is written for data is such a member.
-/

namespace EngineHost

namespace Bytes

/-- Bytes of one length can be read off the number that they spell. -/
theorem littleEndian_injective {as bs : Bytes} (hlength : as.length = bs.length)
    (h : littleEndian as = littleEndian bs) : as = bs := by
  induction as generalizing bs with
  | nil => exact (List.length_eq_zero_iff.mp hlength.symm).symm
  | cons a as ih =>
    cases bs with
    | nil => cases hlength
    | cons b bs =>
      have ha := a.toNat_lt
      have hb := b.toNat_lt
      rw [littleEndian, littleEndian] at h
      have hhead : a = b := UInt8.toNat_inj.mp (by omega)
      have htail : as = bs := ih (Nat.succ.inj hlength) (by omega)
      rw [hhead, htail]

/-- A word is read from the first four bytes. -/
theorem toNat_toWord_append {bs : Bytes} (hlength : bs.length = 4) (further : Bytes) :
    (toWord (bs ++ further)).toNat = littleEndian bs := by
  have hword : toWord (bs ++ further) = toWord bs := by
    rw [toWord, toWord, List.take_left' hlength, List.take_of_length_le hlength.le]
  rw [hword, toNat_toWord hlength.le]

/-- The bytes of a word spell the word. -/
theorem littleEndian_ofWord (w : UInt32) : littleEndian (ofWord w) = w.toNat := by
  have hw := w.toNat_lt
  simp only [ofWord, littleEndian, UInt32.toNat_toUInt8, UInt32.toNat_shiftRight,
    Nat.shiftRight_eq_div_pow]
  change w.toNat % 2 ^ 8 + 256 * (w.toNat / 2 ^ 8 % 2 ^ 8 + 256 * (w.toNat / 2 ^ 16 % 2 ^ 8 +
    256 * (w.toNat / 2 ^ 24 % 2 ^ 8 + 256 * 0))) = w.toNat
  omega

end Bytes

namespace Gzip

/-- The bytes are the trailer of the data: its checksum and its length modulo `2 ^ 32`, each in four
bytes with the least significant first. -/
structure IsTrailer (data trailer : Bytes) : Prop where
  length_eq : trailer.length = 8
  isChecksum : IsChecksum data (UInt32.ofNat (Bytes.littleEndian (trailer.take 4)))
  size_eq : Bytes.littleEndian (trailer.drop 4) = data.length % 2 ^ 32

/-- A gzip member without optional fields whose blocks are all stored, up to its trailer. -/
structure StoredMember where
  /-- The time of the last change. -/
  time : Vector UInt8 4
  /-- How hard the data was compressed. -/
  extraFlags : UInt8
  /-- The system that the member comes from. -/
  system : UInt8
  /-- The blocks before the last one. -/
  blocks : List StoredBlock
  /-- The last block. -/
  final : StoredBlock

namespace StoredMember

/-- The header: how members start, the method, no flags, and what is not looked at. -/
def header (m : StoredMember) : Bytes :=
  [0x1F, 0x8B, 8, 0] ++ m.time.toList ++ [m.extraFlags, m.system]

/-- The blocks. -/
def body (m : StoredMember) : Bytes := storedBody m.blocks m.final

/-- The data in the blocks. -/
def data (m : StoredMember) : Bytes := storedData m.blocks m.final

/-- The bytes of the member with a trailer. -/
def bytes (m : StoredMember) (trailer : Bytes) : Bytes := m.header ++ (m.body ++ trailer)

/-- What is wrong with a member of which only so many bytes are there. -/
def cutFault (m : StoredMember) (length : Nat) : Fault :=
  if m.header.length ≤ length ∧ length < m.header.length + m.body.length then .incompleteData
  else .unexpectedEnd

/-- The header has ten bytes. -/
theorem length_header (m : StoredMember) : m.header.length = 10 := by
  simp [header]

end StoredMember

/-! ### Header and trailer -/

/-- A header that is too short ends unexpectedly. -/
theorem skipHeader_of_length_lt {bytes : Bytes} (h : bytes.length < 10) :
    skipHeader bytes = .error .unexpectedEnd := by
  rw [skipHeader, skip, if_pos h]
  rfl

/-- The header of a member is skipped. -/
theorem skipHeader_header (m : StoredMember) (rest : Bytes) :
    skipHeader (m.header ++ rest) = .ok rest := by
  have hlong : ¬ (m.header ++ rest).length < 10 := by
    rw [List.length_append, m.length_header]
    omega
  have hskip : skip 10 (m.header ++ rest) = .ok rest := by
    rw [skip, if_neg hlong, List.drop_left' m.length_header]
  have hmethod : (m.header ++ rest).getD 2 0 = 8 := rfl
  have hflags : (m.header ++ rest).getD 3 0 = 0 := rfl
  rw [skipHeader, hskip]
  simp only [hmethod, hflags]
  rfl

/-- A trailer that is too short ends unexpectedly. -/
theorem checkTrailer_of_length_lt {data trailer : Bytes} (h : trailer.length < 8) :
    checkTrailer data trailer = .error .unexpectedEnd := by
  rw [checkTrailer, if_pos h]

/-- The trailer of data is what its check accepts. -/
theorem isTrailer_iff {data trailer : Bytes} (hlength : trailer.length = 8) (further : Bytes) :
    IsTrailer data trailer ↔
      Bytes.toWord (trailer ++ further) = checksum data ∧
        Bytes.toWord ((trailer ++ further).drop 4) = UInt32.ofNat data.length := by
  obtain ⟨front, back, rfl, hfront⟩ : ∃ front back, trailer = front ++ back ∧ front.length = 4 :=
    ⟨_, _, (List.take_append_drop 4 trailer).symm, by rw [List.length_take]; omega⟩
  have hback : back.length = 4 := by
    rw [List.length_append] at hlength
    omega
  have hsize : Bytes.littleEndian back = data.length % 2 ^ 32 ↔
      Bytes.toWord (back ++ further) = UInt32.ofNat data.length := by
    rw [← UInt32.toNat_inj, Bytes.toNat_toWord_append hback, UInt32.toNat_ofNat']
  have hcrc : UInt32.ofNat (Bytes.littleEndian front) =
      Bytes.toWord (front ++ (back ++ further)) := by
    rw [← Bytes.toNat_toWord_append hfront (back ++ further), UInt32.ofNat_toNat]
  rw [List.append_assoc, List.drop_left' hfront, ← hsize, ← hcrc, ← isChecksum_iff]
  constructor
  · intro h
    have hchecksum := h.isChecksum
    have hlast := h.size_eq
    rw [List.take_left' hfront] at hchecksum
    rw [List.drop_left' hfront] at hlast
    exact ⟨hchecksum, hlast⟩
  · rintro ⟨hchecksum, hlast⟩
    refine ⟨hlength, ?_, ?_⟩
    · rwa [List.take_left' hfront]
    · rwa [List.drop_left' hfront]

instance (data trailer : Bytes) : Decidable (IsTrailer data trailer) :=
  if hlength : trailer.length = 8 then decidable_of_iff _ (isTrailer_iff hlength []).symm
  else .isFalse fun h => hlength h.length_eq

/-- The check looks at eight bytes, and takes them only if they are the trailer. -/
theorem checkTrailer_append {data trailer : Bytes} (hlength : trailer.length = 8)
    (further : Bytes) :
    checkTrailer data (trailer ++ further) =
      if IsTrailer data trailer then .ok () else .error .wrongChecksum := by
  have hlong : ¬ (trailer ++ further).length < 8 := by
    rw [List.length_append, hlength]
    omega
  rw [checkTrailer, if_neg hlong]
  simp only [isTrailer_iff hlength further]

/-- Data has only one trailer. -/
theorem IsTrailer.unique {data first second : Bytes} (hfirst : IsTrailer data first)
    (hsecond : IsTrailer data second) : first = second := by
  have hlength : first.length = second.length := by rw [hfirst.length_eq, hsecond.length_eq]
  have hbound : ∀ bs : Bytes, Bytes.littleEndian (bs.take 4) < 2 ^ 32 := by
    intro bs
    calc Bytes.littleEndian (bs.take 4) < 256 ^ (bs.take 4).length := Bytes.littleEndian_lt _
      _ ≤ 256 ^ 4 := Nat.pow_le_pow_right (by decide) (List.length_take_le 4 bs)
      _ = 2 ^ 32 := by decide
  have hwords : Bytes.littleEndian (first.take 4) = Bytes.littleEndian (second.take 4) := by
    have hone := (isChecksum_iff data _).mp hfirst.isChecksum
    have htwo := (isChecksum_iff data _).mp hsecond.isChecksum
    have hsame := congrArg UInt32.toNat (hone.trans htwo.symm)
    rwa [UInt32.toNat_ofNat_of_lt' (hbound first), UInt32.toNat_ofNat_of_lt' (hbound second)]
      at hsame
  have hfront : first.take 4 = second.take 4 :=
    Bytes.littleEndian_injective (by simp [hlength]) hwords
  have hback : first.drop 4 = second.drop 4 :=
    Bytes.littleEndian_injective (by simp [hlength]) (hfirst.size_eq.trans hsecond.size_eq.symm)
  rw [← List.take_append_drop 4 first, hfront, hback, List.take_append_drop]

/-- All data has a trailer. -/
theorem isTrailer_trailer (data : Bytes) : IsTrailer data (trailer data) := by
  have hword : (Bytes.ofWord (checksum data)).length = 4 := rfl
  refine ⟨rfl, ?_, ?_⟩
  · rw [trailer, List.take_left' hword, Bytes.littleEndian_ofWord, UInt32.ofNat_toNat,
      isChecksum_iff]
  · rw [trailer, List.drop_left' hword, Bytes.littleEndian_ofWord]
    exact UInt32.toNat_ofNat'

/-- All data can be cut into blocks. -/
theorem exists_storedBody_eq (data : Bytes) :
    ∃ blocks final, storedData blocks final = data ∧
      storedBody blocks final = storedBlocks data := by
  fun_induction storedBlocks data with
  | case1 data hshort => exact ⟨[], ⟨0, data, hshort⟩, rfl, rfl⟩
  | case2 data hlong ih =>
    obtain ⟨blocks, final, hdata, hbody⟩ := ih
    refine ⟨⟨0, data.take storedLimit, List.length_take_le ..⟩ :: blocks, final, ?_, ?_⟩
    · rw [storedData_cons, hdata, List.take_append_drop]
    · rw [storedBody_cons, hbody]
      rfl

/-- What is written for data is a member that holds it. -/
theorem exists_bytes_eq_store (data : Bytes) :
    ∃ m : StoredMember, m.data = data ∧ m.bytes (trailer data) = store data := by
  obtain ⟨blocks, final, hdata, hbody⟩ := exists_storedBody_eq data
  refine ⟨⟨#v[0, 0, 0, 0], 0, 255, blocks, final⟩, hdata, ?_⟩
  rw [StoredMember.bytes, StoredMember.body, hbody, store, List.append_assoc]
  rfl

/-! ### Whole members and members that are cut off -/

/-- The blocks of a member are read to their end, and what follows them has to be its trailer. -/
theorem decompress_append (m : StoredMember) (tail : Bytes) :
    decompress (m.header ++ (m.body ++ tail)) = (checkTrailer m.data tail).map fun _ => m.data := by
  rw [decompress, skipHeader_header]
  simp only [bind, Except.bind, StoredMember.body, inflate_storedBody]
  rw [StoredMember.data]
  cases checkTrailer (storedData m.blocks m.final) tail <;> rfl

/-- A member that is cut anywhere is faulty, and the fault is known from the place of the cut. -/
theorem decompress_bytes_take (m : StoredMember) {trailer : Bytes} (htrailer : trailer.length = 8)
    {n : Nat} (hn : n < (m.bytes trailer).length) :
    decompress ((m.bytes trailer).take n) = .error (m.cutFault n) := by
  have hheader := m.length_header
  rw [StoredMember.bytes, List.length_append, List.length_append] at hn
  rw [StoredMember.bytes, StoredMember.cutFault]
  by_cases hcut : n < m.header.length
  · have hshort : ((m.header ++ (m.body ++ trailer)).take n).length < 10 := by
      rw [List.length_take]
      omega
    rw [decompress, skipHeader_of_length_lt hshort, if_neg (by omega)]
    rfl
  · rw [List.take_append, List.take_of_length_le (by omega)]
    by_cases hbody : n < m.header.length + m.body.length
    · have hinside : n - m.header.length < m.body.length := by omega
      rw [if_pos (by omega), List.take_append_of_le_length hinside.le, decompress,
        skipHeader_header]
      simp only [bind, Except.bind, StoredMember.body,
        inflate_storedBody_take m.blocks m.final hinside]
    · have hshort : (trailer.take (n - m.header.length - m.body.length)).length < 8 := by
        rw [List.length_take]
        omega
      rw [if_neg (by omega), List.take_append, List.take_of_length_le (by omega),
        decompress_append, checkTrailer_of_length_lt hshort]
      rfl

/-- Bytes look compressed just in case they start with the two bytes of the mark. -/
theorem isMember_iff (bytes : Bytes) : isMember bytes = true ↔ [0x1F, 0x8B] <+: bytes := by
  constructor
  · intro h
    unfold isMember at h
    split at h
    case h_1 rest => exact ⟨rest, rfl⟩
    case h_2 => cases h
  · rintro ⟨rest, rfl⟩
    rfl

/-- A member looks compressed, whatever follows it. -/
theorem isMember_bytes_append (m : StoredMember) (trailer further : Bytes) :
    isMember (m.bytes trailer ++ further) = true := rfl

/-- A cut member looks compressed if its first two bytes are left. -/
theorem isMember_bytes_take (m : StoredMember) (trailer : Bytes) {n : Nat} (hn : 2 ≤ n) :
    isMember ((m.bytes trailer).take n) = true := by
  obtain ⟨more, rfl⟩ := Nat.exists_eq_add_of_le' hn
  rfl

end Gzip

namespace Module

open Gzip (IsTrailer StoredMember)

/-- What starts like a member is a module if it can be decompressed to one. -/
theorem ofBytes_of_isMember {bytes : Bytes} (h : Gzip.isMember bytes = true) :
    ofBytes bytes = ((Gzip.decompress bytes).mapError LoadFault.gzip).bind ofPlain := by
  rw [ofBytes, if_pos h]
  cases Gzip.decompress bytes <;> rfl

/-- A whole member is its data if its trailer is right. -/
theorem ofBytes_member_append (m : StoredMember) {trailer : Bytes} (hlength : trailer.length = 8)
    (further : Bytes) :
    ofBytes (m.bytes trailer ++ further) =
      if IsTrailer m.data trailer then ofPlain m.data else .error (.gzip .wrongChecksum) := by
  rw [ofBytes_of_isMember (Gzip.isMember_bytes_append m trailer further), StoredMember.bytes,
    List.append_assoc, List.append_assoc, Gzip.decompress_append,
    Gzip.checkTrailer_append hlength]
  by_cases h : IsTrailer m.data trailer
  · rw [if_pos h, if_pos h]
    rfl
  · rw [if_neg h, if_neg h]
    rfl

/-- Data that is stored in a member is loaded as it is. -/
theorem ofBytes_store (data : Bytes) : ofBytes (Gzip.store data) = ofPlain data := by
  obtain ⟨m, hdata, hbytes⟩ := Gzip.exists_bytes_eq_store data
  have htrailer := Gzip.isTrailer_trailer data
  have hload := ofBytes_member_append m htrailer.length_eq []
  rwa [hdata, if_pos htrailer, List.append_nil, hbytes] at hload

/-- A member that is cut off is no module. -/
theorem ofBytes_member_take (m : StoredMember) {trailer : Bytes} (htrailer : trailer.length = 8)
    {n : Nat} (hfirst : 2 ≤ n) (hn : n < (m.bytes trailer).length) :
    ofBytes ((m.bytes trailer).take n) = .error (.gzip (m.cutFault n)) := by
  rw [ofBytes_of_isMember (Gzip.isMember_bytes_take m trailer hfirst),
    Gzip.decompress_bytes_take m htrailer hn]
  rfl

/-- A member with stored blocks and the trailer of their data is loaded as the data itself, whatever
follows it. With any other eight bytes for the trailer, or cut off after its first two bytes, it is
not loaded. -/
theorem ofBytes_storedMember (m : StoredMember) (hdata : m.data ≠ []) {trailer : Bytes}
    (htrailer : IsTrailer m.data trailer) :
    (∀ further, ∃ loaded, ofBytes (m.bytes trailer ++ further) = .ok loaded ∧
      loaded.bytes = m.data ∧ loaded.digest = Digest.sha256 m.data) ∧
    (¬ [0x1F, 0x8B] <+: m.data →
      ∀ further, ofBytes (m.bytes trailer ++ further) = ofBytes m.data) ∧
    (∀ other further, other.length = 8 → other ≠ trailer →
      ofBytes (m.bytes other ++ further) = .error (.gzip .wrongChecksum)) ∧
    (∀ front, front <+: m.bytes trailer → front ≠ m.bytes trailer → 2 ≤ front.length →
      ofBytes front = .error (.gzip (m.cutFault front.length))) ∧
    ∀ fault, (Error.load (.gzip fault)).kind = "ENGINE_LOAD" := by
  have hwhole : ∀ further, ofBytes (m.bytes trailer ++ further) = ofPlain m.data := by
    intro further
    rw [ofBytes_member_append m htrailer.length_eq, if_pos htrailer]
  refine ⟨?_, ?_, ?_, ?_, fun _ => rfl⟩
  · intro further
    refine ⟨⟨m.data, hdata⟩, ?_, rfl, rfl⟩
    rw [hwhole, ofPlain, dif_neg hdata]
  · intro hplain further
    rw [hwhole, ofBytes, if_neg (mt (Gzip.isMember_iff m.data).mp hplain)]
  · intro other further hlength hother
    rw [ofBytes_member_append m hlength, if_neg]
    exact fun h => hother (h.unique htrailer)
  · intro front hfront hproper hfirst
    have hlt : front.length < (m.bytes trailer).length := by
      refine Nat.lt_of_le_of_ne hfront.length_le fun heq => hproper ?_
      exact hfront.eq_of_length heq
    rw [List.prefix_iff_eq_take.mp hfront, List.length_take, Nat.min_eq_left hlt.le]
    exact ofBytes_member_take m htrailer.length_eq hfirst hlt

/-- A member in three blocks, of which one is empty. -/
theorem ofBytes_storedMember_threeBlocks :
    ∃ (m : StoredMember) (trailer : Bytes) (loaded : Module), m.blocks.length = 2 ∧
      m.data = [0x00, 0x61, 0x73, 0x6D] ∧ IsTrailer m.data trailer ∧
      ofBytes (m.bytes trailer ++ [0xFF]) = .ok loaded ∧
      loaded.bytes = [0x00, 0x61, 0x73, 0x6D] ∧
      loaded.digest =
        [0xCD, 0x5D, 0x49, 0x35, 0xA4, 0x8C, 0x06, 0x72, 0xCB, 0x06, 0x40, 0x7B, 0xB4, 0x43, 0xBC,
          0x00, 0x87, 0xAF, 0xF9, 0x47, 0xC6, 0xB8, 0x64, 0xBA, 0xC8, 0x86, 0x98, 0x2C, 0x73, 0xB3,
          0x02, 0x7F] ∧
      ofBytes (m.bytes trailer ++ [0xFF]) = ofBytes [0x00, 0x61, 0x73, 0x6D] ∧
      ofBytes (m.bytes (List.replicate 8 0) ++ [0xFF]) = .error (.gzip .wrongChecksum) ∧
      ofBytes ((m.bytes trailer).take 31) = .error (.gzip .unexpectedEnd) := by
  let m : StoredMember :=
    { time := #v[0x10, 0x32, 0x54, 0x76], extraFlags := 2, system := 3,
      blocks := [⟨0, [0x00, 0x61], by decide⟩, ⟨21, [], by decide⟩],
      final := ⟨0, [0x73, 0x6D], by decide⟩ }
  let trailer : Bytes := [0xDB, 0x49, 0x40, 0x5F, 4, 0, 0, 0]
  have hdata : m.data = [0x00, 0x61, 0x73, 0x6D] := rfl
  have htrailer : IsTrailer m.data trailer := by decide +kernel
  obtain ⟨hload, hsame, hother, hcut, -⟩ := ofBytes_storedMember m (by decide) htrailer
  obtain ⟨loaded, hok, hbytes, hdigest⟩ := hload [0xFF]
  refine ⟨m, trailer, loaded, rfl, hdata, htrailer, hok, hbytes, hdigest.trans (by decide +kernel),
    hsame (by decide) _, hother _ _ rfl (by decide), ?_⟩
  exact hcut _ (List.take_prefix 31 _) (by decide) (by decide)

end Module

end EngineHost
