import EngineHost.Proofs.Cleanup

/-!
# Accesses outside linear memory

In an analysis the host writes the code to linear memory, reads the length in front of the result,
and reads the bytes behind it. An access that does not lie inside ends the analysis with an error
that tells where the access was and how large linear memory was then. The error is right, and
everything that lies inside is read, with one exception: an empty result in the last four bytes of
four gibibytes lies inside, but the address behind its length has more than 32 bits, and so it is
refused as if it did not.
-/

namespace EngineHost

namespace Sandbox

variable {σ : Type}

/-- The engine gives a buffer for the code, at the address `p`. -/
structure Gives (engine : Engine σ) (code : Bytes) (s : Sandbox σ) (p : UInt32)
    (allocated : Sandbox σ) : Prop where
  addressable : Addressable code
  alloc_eq : engine.alloc code.length.toUInt32 s = (.returned p, allocated)
  ne_zero : p ≠ 0

/-- The code fits into the buffer that the engine gives, and the engine analyzes it there and
reports a result at the address `r`. -/
structure Reports (engine : Engine σ) (code : Bytes) (mask : UInt32) (s : Sandbox σ) (r : UInt32)
    (analyzed : Sandbox σ) : Prop where
  exists_written : ∃ p allocated written, Gives engine code s p allocated ∧
    allocated.memory.write? p.toNat code = some written ∧
    engine.analyze p code.length.toUInt32 mask ⟨written, allocated.state⟩ = (.returned r, analyzed)
  ne_zero : r ≠ 0

/-- The accesses of the host in an analysis: linear memory at that moment, an address, and a number
of bytes. -/
inductive Access (engine : Engine σ) (code : Bytes) (mask : UInt32) (s : Sandbox σ) :
    LinearMemory → Nat → Nat → Prop where
  /-- The code is written. -/
  | input {p : UInt32} {allocated : Sandbox σ} (hgives : Gives engine code s p allocated) :
    Access engine code mask s allocated.memory p.toNat code.length
  /-- The length in front of the result is read. -/
  | length {r : UInt32} {analyzed : Sandbox σ} (hreports : Reports engine code mask s r analyzed) :
    Access engine code mask s analyzed.memory r.toNat 4
  /-- The bytes behind the length are read. -/
  | payload {r : UInt32} {analyzed : Sandbox σ} (hreports : Reports engine code mask s r analyzed)
    (hlength : analyzed.memory.Holds r.toNat 4) (hsmall : r.toNat + 4 < 0x100000000) :
    Access engine code mask s analyzed.memory (r.toNat + 4) (analyzed.memory.wordAt r.toNat)
  /-- The address behind the length has more than 32 bits, and the result is looked at whole. -/
  | result {r : UInt32} {analyzed : Sandbox σ} (hreports : Reports engine code mask s r analyzed)
    (hlength : analyzed.memory.Holds r.toNat 4) (hlarge : 0x100000000 ≤ r.toNat + 4) :
    Access engine code mask s analyzed.memory r.toNat (4 + analyzed.memory.wordAt r.toNat)

variable {engine : Engine σ} {code : Bytes} {mask : UInt32} {s : Sandbox σ}

/-! ### The answer up to the first access that fails -/

/-- Once the engine has given a buffer, the answer is that of the analysis in this buffer. -/
theorem answer_of_gives {p : UInt32} {allocated : Sandbox σ}
    (hgives : Gives engine code s p allocated) :
    answer engine code mask s = answerAt engine p code mask allocated := by
  have hlong : ¬0x100000000 ≤ code.length := Nat.not_le.mpr hgives.addressable.2
  rw [answer, if_neg hgives.addressable.1, if_neg hlong, hgives.alloc_eq]
  exact if_neg hgives.ne_zero

/-- Once the engine has reported a result, the answer is what stands at its address. -/
theorem answer_of_reports {r : UInt32} {analyzed : Sandbox σ}
    (hreports : Reports engine code mask s r analyzed) :
    answer engine code mask s = analyzed.resultAt r := by
  obtain ⟨p, allocated, written, hgives, hwrite, hanalyze⟩ := hreports.exists_written
  rw [answer_of_gives hgives, answerAt, hwrite]
  dsimp only
  rw [hanalyze]
  exact if_neg hreports.ne_zero

/-- Once there is a buffer, an error about an access comes from the write, or from the result. -/
theorem exists_of_answerAt_memoryAccess {p offset : UInt32} {length size : Nat}
    {allocated : Sandbox σ} (hgives : Gives engine code s p allocated)
    (herror : answerAt engine p code mask allocated =
      .error (.memoryAccess offset length size)) :
    (∃ allocated, Gives engine code s offset allocated ∧ length = code.length ∧
        size = allocated.memory.size ∧ ¬allocated.memory.Holds offset.toNat length) ∨
      ∃ r analyzed, Reports engine code mask s r analyzed ∧
        analyzed.resultAt r = .error (.memoryAccess offset length size) := by
  unfold answerAt at herror
  split at herror
  case h_1 hwrite =>
    cases herror
    exact .inl ⟨allocated, hgives, rfl, rfl, LinearMemory.write?_eq_none_iff.mp hwrite⟩
  case h_2 written hwrite =>
    split at herror
    case h_1 => cases herror
    case h_2 r analyzed hanalyze =>
      split at herror
      case isTrue => cases herror
      case isFalse hr =>
        exact .inr ⟨r, analyzed, ⟨⟨p, allocated, written, hgives, hwrite, hanalyze⟩, hr⟩, herror⟩

/-- An error about an access comes from the write, or from the result. -/
theorem exists_of_answer_memoryAccess {offset : UInt32} {length size : Nat}
    (herror : answer engine code mask s = .error (.memoryAccess offset length size)) :
    (∃ allocated, Gives engine code s offset allocated ∧ length = code.length ∧
        size = allocated.memory.size ∧ ¬allocated.memory.Holds offset.toNat length) ∨
      ∃ r analyzed, Reports engine code mask s r analyzed ∧
        analyzed.resultAt r = .error (.memoryAccess offset length size) := by
  unfold answer at herror
  split at herror
  case isTrue => cases herror
  case isFalse hempty =>
    split at herror
    case isTrue => cases herror
    case isFalse hlong =>
      split at herror
      case h_1 => cases herror
      case h_2 p allocated halloc =>
        split at herror
        case isTrue => cases herror
        case isFalse hp =>
          have hcode : Addressable code := ⟨hempty, by omega⟩
          exact exists_of_answerAt_memoryAccess ⟨hcode, halloc, hp⟩ herror

/-! ### Reading a result -/

/-- The address behind a length, if it has 32 bits. -/
theorem toNat_add_lengthBytes {r : UInt32} (hsmall : r.toNat + 4 < 0x100000000) :
    (r + UInt32.ofNat lengthBytes).toNat = r.toNat + 4 := by
  rw [UInt32.toNat_add, UInt32.toNat_ofNat', Nat.add_mod_mod]
  exact Nat.mod_eq_of_lt hsmall

section ResultAt

variable {r : UInt32}

/-- A result whose length lies inside is looked at behind the length, if there is an address. -/
theorem resultAt_of_small (hlength : s.memory.Holds r.toNat 4)
    (hsmall : r.toNat + 4 < 0x100000000) :
    s.resultAt r =
      s.memory.fetch (r + UInt32.ofNat lengthBytes) (s.memory.wordAt r.toNat) := by
  have hword := s.toNat_resultLength r
  have hguard : r.toNat + lengthBytes < 0x100000000 := hsmall
  have hhead : s.memory.Holds r.toNat lengthBytes := hlength
  rw [resultAt, LinearMemory.fetch_of_holds hhead]
  dsimp only
  rw [payload, if_pos hguard, ← hword]
  rfl

/-- A result without an address behind its length is refused. -/
theorem resultAt_of_large (hlength : s.memory.Holds r.toNat 4)
    (hlarge : 0x100000000 ≤ r.toNat + 4) :
    s.resultAt r =
      .error (.memoryAccess r (4 + s.memory.wordAt r.toNat) s.memory.size) := by
  have hword := s.toNat_resultLength r
  have hguard : ¬r.toNat + lengthBytes < 0x100000000 := Nat.not_lt.mpr hlarge
  have hhead : s.memory.Holds r.toNat lengthBytes := hlength
  rw [resultAt, LinearMemory.fetch_of_holds hhead]
  dsimp only
  rw [payload, if_neg hguard, ← hword]
  rfl

/-- Only the last four bytes of four gibibytes hold a length that no address follows. -/
theorem eq_of_large (hlength : s.memory.Holds r.toNat 4) (hlarge : 0x100000000 ≤ r.toNat + 4) :
    r = 0xFFFFFFFC ∧ s.memory.size = 0x100000000 := by
  have hinside : r.toNat + 4 ≤ s.memory.size := hlength
  have hsize := s.memory.size_le
  refine ⟨UInt32.toNat_inj.mp ?_, by omega⟩
  change r.toNat = 4294967292
  omega

/-- A result that lies inside is read, unless it ends where the addresses end. -/
theorem resultAt_of_holds (hinside : s.memory.Holds r.toNat (4 + s.memory.wordAt r.toNat)) :
    (r ≠ 0xFFFFFFFC → s.resultAt r =
        .ok (s.memory.region (r.toNat + 4) (s.memory.wordAt r.toNat))) ∧
      (r = 0xFFFFFFFC → s.resultAt r = .error (.memoryAccess r 4 0x100000000)) := by
  have hsum : r.toNat + (4 + s.memory.wordAt r.toNat) ≤ s.memory.size := hinside
  have hlength : s.memory.Holds r.toNat 4 := by
    change r.toNat + 4 ≤ s.memory.size
    omega
  rcases Nat.lt_or_ge (r.toNat + 4) 0x100000000 with hsmall | hlarge
  · have hstart := toNat_add_lengthBytes hsmall
    have hbehind : s.memory.Holds (r + UInt32.ofNat lengthBytes).toNat
        (s.memory.wordAt r.toNat) := by
      rw [hstart]
      change r.toNat + 4 + s.memory.wordAt r.toNat ≤ s.memory.size
      omega
    constructor
    · intro _
      rw [resultAt_of_small hlength hsmall, LinearMemory.fetch_of_holds hbehind, hstart]
    · rintro rfl
      exact absurd hsmall (by decide)
  · obtain ⟨hr, hsize⟩ := eq_of_large hlength hlarge
    constructor
    · intro hne
      exact absurd hr hne
    · intro _
      have hempty : s.memory.wordAt r.toNat = 0 := by omega
      rw [resultAt_of_large hlength hlarge, hempty, hsize]

/-- A result that is refused does not lie inside, unless it is empty and ends where the addresses
end. -/
theorem access_of_resultAt {t : Sandbox σ} {offset : UInt32} {length size : Nat}
    (hreports : Reports engine code mask s r t)
    (herror : t.resultAt r = .error (.memoryAccess offset length size)) :
    Access engine code mask s t.memory offset.toNat length ∧ size = t.memory.size ∧
      (size < offset.toNat + length ∨
        offset = 0xFFFFFFFC ∧ length = 4 ∧ size = 0x100000000) := by
  by_cases hlength : t.memory.Holds r.toNat 4
  case neg =>
    have hhead : ¬t.memory.Holds r.toNat lengthBytes := hlength
    have houtside : t.memory.size < r.toNat + 4 := Nat.not_le.mp hlength
    rw [resultAt, LinearMemory.fetch_of_not_holds hhead] at herror
    cases herror
    exact ⟨.length hreports, rfl, .inl houtside⟩
  rcases Nat.lt_or_ge (r.toNat + 4) 0x100000000 with hsmall | hlarge
  · have hstart := toNat_add_lengthBytes hsmall
    by_cases hbehind : t.memory.Holds (r + UInt32.ofNat lengthBytes).toNat
        (t.memory.wordAt r.toNat)
    · rw [resultAt_of_small hlength hsmall, LinearMemory.fetch_of_holds hbehind] at herror
      cases herror
    · have houtside : t.memory.size < (r + UInt32.ofNat lengthBytes).toNat +
          t.memory.wordAt r.toNat := Nat.not_le.mp hbehind
      rw [resultAt_of_small hlength hsmall, LinearMemory.fetch_of_not_holds hbehind] at herror
      cases herror
      refine ⟨?_, rfl, .inl houtside⟩
      rw [hstart]
      exact .payload hreports hlength hsmall
  · -- Here the error speaks of the whole result, which ends at the size exactly if it is empty.
    obtain ⟨hr, hsize⟩ := eq_of_large hlength hlarge
    rw [resultAt_of_large hlength hlarge] at herror
    cases herror
    refine ⟨.result hreports hlength hlarge, rfl, ?_⟩
    rcases Nat.eq_zero_or_pos (t.memory.wordAt r.toNat) with hempty | hsome
    · exact .inr ⟨hr, by omega, hsize⟩
    · left
      omega

end ResultAt

/-! ### Errors about accesses -/

/-- An error about an access tells of one that does not lie inside linear memory, and the size that
linear memory has then; and a result that lies inside is returned. The exception to both is an empty
result in the last four bytes of four gibibytes. -/
theorem analyze_memoryAccess (engine : Engine σ) (code : Bytes) (mask : UInt32) (s : Sandbox σ)
    (j : Journal) :
    (∀ offset length size,
      (analyze engine code mask s j).1 = .error (.memoryAccess offset length size) →
      ∃ m, Access engine code mask s m offset.toNat length ∧ size = m.size ∧
        (size < offset.toNat + length ∨
          offset = 0xFFFFFFFC ∧ length = 4 ∧ size = 0x100000000)) ∧
    ∀ r analyzed, Reports engine code mask s r analyzed →
      analyzed.memory.Holds r.toNat (4 + analyzed.memory.wordAt r.toNat) →
      (r ≠ 0xFFFFFFFC → (analyze engine code mask s j).1 =
        .ok (analyzed.memory.region (r.toNat + 4) (analyzed.memory.wordAt r.toNat))) ∧
      (r = 0xFFFFFFFC →
        (analyze engine code mask s j).1 = .error (.memoryAccess r 4 0x100000000)) := by
  rw [analyze_fst]
  constructor
  · intro offset length size herror
    rcases exists_of_answer_memoryAccess herror with
      ⟨allocated, hgives, rfl, rfl, houtside⟩ | ⟨r, analyzed, hreports, hresult⟩
    · exact ⟨allocated.memory, .input hgives, rfl, .inl (Nat.not_le.mp houtside)⟩
    · exact ⟨analyzed.memory, access_of_resultAt hreports hresult⟩
  · intro r analyzed hreports hinside
    rw [answer_of_reports hreports]
    exact resultAt_of_holds hinside

/-- An engine that gives the buffer at `input`, reports the result at `result`, and changes
nothing. -/
def idleEngine (input result : UInt32) : Engine Unit where
  alloc := fun _ s => (.returned input, s)
  analyze := fun _ _ _ s => (.returned result, s)
  dealloc := fun _ _ s => (.returned (), s)

/-- Two bytes do not fit at the last address of a page, and an empty result in the last four bytes
of a page is returned. -/
theorem analyze_memoryAccess_onePage :
    (∃ m, Access (idleEngine 65535 8) [96, 0] 1 ⟨.zeros 1, ()⟩ m 65535 2 ∧ 65536 = m.size) ∧
      (analyze (idleEngine 8 65532) [96] 1 ⟨.zeros 1, ()⟩ {}).1 = .ok [] := by
  constructor
  · obtain ⟨m, haccess, hsize, -⟩ :=
      (analyze_memoryAccess (idleEngine 65535 8) [96, 0] 1 ⟨.zeros 1, ()⟩ {}).1 65535 2 65536 rfl
    exact ⟨m, haccess, hsize⟩
  · have hgives : Gives (idleEngine 8 65532) [96] ⟨.zeros 1, ()⟩ 8 ⟨.zeros 1, ()⟩ :=
      ⟨⟨by decide, by decide⟩, rfl, by decide⟩
    have hreports : Reports (idleEngine 8 65532) [96] 1 ⟨.zeros 1, ()⟩ 65532 _ :=
      ⟨⟨8, _, _, hgives, rfl, rfl⟩, by decide⟩
    have hreturned :=
      (analyze_memoryAccess (idleEngine 8 65532) [96] 1 ⟨.zeros 1, ()⟩ {}).2 65532 _ hreports
        (by decide)
    exact hreturned.1 (by decide)

/-- An empty result in the last four bytes of four gibibytes lies inside linear memory, and is
refused with an error that says it does not. -/
theorem analyze_emptyResult_atEnd :
    ∃ analyzed, Reports (idleEngine 8 0xFFFFFFFC) [1] 1 ⟨.zeros 65536, ()⟩ 0xFFFFFFFC analyzed ∧
      analyzed.memory.Holds 0xFFFFFFFC (4 + analyzed.memory.wordAt 0xFFFFFFFC) ∧
      (analyze (idleEngine 8 0xFFFFFFFC) [1] 1 ⟨.zeros 65536, ()⟩ {}).1 =
        .error (.memoryAccess 0xFFFFFFFC 4 0x100000000) ∧
      ¬0x100000000 < (0xFFFFFFFC : UInt32).toNat + 4 := by
  have hgives : Gives (idleEngine 8 0xFFFFFFFC) [1] ⟨.zeros 65536, ()⟩ 8 ⟨.zeros 65536, ()⟩ :=
    ⟨⟨by decide, by decide⟩, rfl, by decide⟩
  exact ⟨_, ⟨⟨8, _, _, hgives, rfl, rfl⟩, by decide⟩, by decide, rfl, by decide⟩

end Sandbox

end EngineHost
