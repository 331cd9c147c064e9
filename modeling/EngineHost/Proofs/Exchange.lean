import EngineHost.Proofs.Recording

/-!
# The calls of an analysis

An analysis makes at most four calls of the engine. Which ones it makes is decided by the answers
of the engine and by linear memory, and whatever the engine does, a buffer that it gave is given
back before the analysis ends. Over any sequence of requests on a handle this leaves no buffer
behind.
-/

namespace EngineHost

variable {σ : Type}

/-- What the engine answers does not lead to a result whose size is known and has 32 bits. -/
def NoResult (m : LinearMemory) (answer : Outcome UInt32) : Prop :=
  answer = .trapped ∨ answer = .returned 0 ∨
    ∃ r, answer = .returned r ∧ r ≠ 0 ∧
      (¬m.Holds r.toNat 4 ∨ m.Holds r.toNat 4 ∧ 0x100000000 ≤ 4 + m.wordAt r.toNat)

/-- Code that can be handed over: there is some, and its length has 32 bits. -/
def Addressable (code : Bytes) : Prop := code ≠ [] ∧ code.length < 0x100000000

/-- The calls that an analysis of `code` under `mask` makes, and what it answers. An event is a
call with linear memory before and after it, so that the same memory in two events means that
nobody has changed it in between. -/
inductive Exchange (code : Bytes) (mask : UInt32) : List Event → Except Error Bytes → Prop where
  /-- The code cannot be handed over. -/
  | unasked {e : Error} (hcode : code = [] ∨ 0x100000000 ≤ code.length) :
    Exchange code mask [] (.error e)
  /-- The engine gives no buffer. -/
  | unallocated {e : Error} {m₀ m₁ : LinearMemory} {answer : Outcome UInt32}
    (hcode : Addressable code) (hanswer : answer = .trapped ∨ answer = .returned 0) :
    Exchange code mask [⟨.alloc code.length.toUInt32 answer, m₀, m₁⟩] (.error e)
  /-- The code does not fit at the address of the buffer. -/
  | unwritten {e : Error} {m₀ m₁ m₂ : LinearMemory} {p : UInt32} {freed : Outcome Unit}
    (hcode : Addressable code) (hp : p ≠ 0) (hfit : ¬m₁.Holds p.toNat code.length) :
    Exchange code mask
      [⟨.alloc code.length.toUInt32 (.returned p), m₀, m₁⟩,
        ⟨.dealloc p code.length.toUInt32 freed, m₁, m₂⟩] (.error e)
  /-- The engine gives no result that could be given back. -/
  | unreported {e : Error} {m₀ m₁ m₂ m₃ m₄ : LinearMemory} {p : UInt32}
    {answer : Outcome UInt32} {freed : Outcome Unit}
    (hcode : Addressable code) (hp : p ≠ 0) (hfit : m₁.Holds p.toNat code.length)
    (hwrite : m₁.write? p.toNat code = some m₂) (hnone : NoResult m₃ answer) :
    Exchange code mask
      [⟨.alloc code.length.toUInt32 (.returned p), m₀, m₁⟩,
        ⟨.analyze p code.length.toUInt32 mask answer, m₂, m₃⟩,
        ⟨.dealloc p code.length.toUInt32 freed, m₃, m₄⟩] (.error e)
  /-- The engine gives a result, which is given back before the code is. -/
  | reported {result : Except Error Bytes} {m₀ m₁ m₂ m₃ m₄ m₅ : LinearMemory} {p r : UInt32}
    {resultFreed freed : Outcome Unit}
    (hcode : Addressable code) (hp : p ≠ 0) (hfit : m₁.Holds p.toNat code.length)
    (hwrite : m₁.write? p.toNat code = some m₂) (hr : r ≠ 0) (hlength : m₃.Holds r.toNat 4)
    (hsize : 4 + m₃.wordAt r.toNat < 0x100000000) :
    Exchange code mask
      [⟨.alloc code.length.toUInt32 (.returned p), m₀, m₁⟩,
        ⟨.analyze p code.length.toUInt32 mask (.returned r), m₂, m₃⟩,
        ⟨.dealloc r (4 + m₃.wordAt r.toNat).toUInt32 resultFreed, m₃, m₄⟩,
        ⟨.dealloc p code.length.toUInt32 freed, m₄, m₅⟩] result

/-- The first call finds linear memory as `m`, and the last one leaves it as `m'`. -/
def Spans (m : LinearMemory) (events : List Event) (m' : LinearMemory) : Prop :=
  (∀ e ∈ events.head?, e.before = m) ∧ (∀ e ∈ events.getLast?, e.after = m') ∧
    (events = [] → m' = m)

/-- The calls by which a result is given back, linear memory after them, and what reading the result
comes to. -/
inductive Collection (m : LinearMemory) (r : UInt32) :
    List Event → LinearMemory → Except Error Bytes → Prop where
  /-- The size of the result is unknown or too large. -/
  | kept {e : Error} (hnone : NoResult m (.returned r)) : Collection m r [] m (.error e)
  /-- The result is given back with its length. -/
  | released {found : Except Error Bytes} {m' : LinearMemory} {freed : Outcome Unit}
    (hlength : m.Holds r.toNat 4) (hsize : 4 + m.wordAt r.toNat < 0x100000000) :
    Collection m r [⟨.dealloc r (4 + m.wordAt r.toNat).toUInt32 freed, m, m'⟩] m' found

namespace Sandbox

/-- The length in front of a result. -/
def resultLength (s : Sandbox σ) (result : UInt32) : UInt32 :=
  Bytes.toWord (s.memory.region result.toNat lengthBytes)

/-- The length in front of a result is the number that its four bytes spell. -/
theorem toNat_resultLength (s : Sandbox σ) (result : UInt32) :
    (s.resultLength result).toNat = s.memory.wordAt result.toNat :=
  Bytes.toNat_toWord (by simp [lengthBytes])

/-- A result whose length can be read is read and given back. -/
theorem collect_of_holds (engine : Engine σ) {result : UInt32} {s : Sandbox σ}
    (hlength : s.memory.Holds result.toNat lengthBytes) (j : Journal) :
    collect engine result s j =
      (s.payload result (s.resultLength result),
        (releaseResult engine result (s.resultLength result) s j).1,
        match s.payload result (s.resultLength result) with
        | .error _ => (releaseResult engine result (s.resultLength result) s j).2
        | .ok bytes => (releaseResult engine result (s.resultLength result) s j).2.count
            (·.recordPayload bytes.length.toUInt64)) := by
  unfold collect resultLength
  rw [LinearMemory.fetch_of_holds hlength]
  dsimp only
  generalize Bytes.toWord (s.memory.region result.toNat lengthBytes) = length
  cases s.payload result length <;> rfl

/-- A result whose length cannot be read is left alone. -/
theorem collect_of_not_holds (engine : Engine σ) {result : UInt32} {s : Sandbox σ}
    (hlength : ¬s.memory.Holds result.toNat lengthBytes) (j : Journal) :
    collect engine result s j =
      (.error (.memoryAccess result lengthBytes s.memory.size), s,
        j.warn (.unreadableLength result (.memoryAccess result lengthBytes s.memory.size))) := by
  unfold collect
  rw [LinearMemory.fetch_of_not_holds hlength]

/-- Giving a result back makes no call if its size is too large, and one call otherwise. -/
theorem releaseResult_recording (engine : Engine σ) (result length : UInt32) (s : Sandbox σ)
    (log : List Event) (j : Journal) :
    ∃ events, releaseResult engine.recording result length (s.watched log) j =
        ((releaseResult engine result length s j).1.watched (log ++ events),
          (releaseResult engine result length s j).2) ∧
      ((0x100000000 ≤ length.toNat + lengthBytes ∧ events = [] ∧
          (releaseResult engine result length s j).1 = s) ∨
        (length.toNat + lengthBytes < 0x100000000 ∧ ∃ freed,
          events = [⟨.dealloc result (length + UInt32.ofNat lengthBytes) freed, s.memory,
            (releaseResult engine result length s j).1.memory⟩])) := by
  unfold releaseResult
  by_cases hsize : length.toNat + lengthBytes < 0x100000000
  · simp only [if_pos hsize, release_recording]
    exact ⟨_, rfl, .inr ⟨hsize, _, rfl⟩⟩
  · simp only [if_neg hsize]
    exact ⟨[], by rw [List.append_nil], .inl ⟨by omega, rfl, trivial⟩⟩

/-- Reading a result makes no call if its size is unknown or too large, and then fails; otherwise
it makes one call, which gives the result back. -/
theorem collect_recording (engine : Engine σ) {result : UInt32} (hresult : result ≠ 0)
    (s : Sandbox σ) (log : List Event) (j : Journal) :
    ∃ events, Follows (collect engine.recording result (s.watched log) j)
        (collect engine result s j) log events ∧
      Collection s.memory result events (collect engine result s j).2.1.memory
        (collect engine result s j).1 := by
  by_cases hlength : s.memory.Holds result.toNat lengthBytes
  case neg =>
    have hwatched : ¬(s.watched log).memory.Holds result.toNat lengthBytes := hlength
    rw [collect_of_not_holds engine hlength, collect_of_not_holds engine.recording hwatched]
    refine ⟨[], by simp [Follows], .kept ?_⟩
    exact .inr (.inr ⟨result, rfl, hresult, .inl hlength⟩)
  case pos =>
    have hwatched : (s.watched log).memory.Holds result.toNat lengthBytes := hlength
    have hword := s.toNat_resultLength result
    have hsame : (s.watched log).resultLength result = s.resultLength result := rfl
    have hpayload : (s.watched log).payload result (s.resultLength result) =
        s.payload result (s.resultLength result) := rfl
    obtain ⟨events, hreleased, hevents⟩ :=
      releaseResult_recording engine result (s.resultLength result) s log j
    rw [collect_of_holds engine hlength, collect_of_holds engine.recording hwatched, hsame,
      hpayload, hreleased]
    refine ⟨events, rfl, ?_⟩
    dsimp only
    rcases hevents with ⟨hlarge, rfl, hstill⟩ | ⟨hsmall, freed, rfl⟩
    · have hsize : 0x100000000 ≤ 4 + s.memory.wordAt result.toNat := by
        simp only [lengthBytes] at hlarge
        omega
      rw [hstill]
      cases hfound : s.payload result (s.resultLength result) with
      | error e => exact .kept (.inr (.inr ⟨result, rfl, hresult, .inr ⟨hlength, hsize⟩⟩))
      | ok bytes => exact absurd (length_lt_of_payload hresult hfound) (by omega)
    · have hsize : 4 + s.memory.wordAt result.toNat < 0x100000000 := by
        simp only [lengthBytes] at hsmall
        omega
      have hsum : s.resultLength result + UInt32.ofNat lengthBytes =
          (4 + s.memory.wordAt result.toNat).toUInt32 := by
        apply UInt32.toNat_inj.mp
        rw [UInt32.toNat_add, hword]
        simp [lengthBytes]
        omega
      rw [hsum]
      exact .released hlength hsize

/-- Between an allocation and the release of the buffer, an analysis makes the calls of an
exchange. -/
theorem analyzeInput_recording (engine : Engine σ) {p : UInt32} {code : Bytes}
    (hcode : Addressable code) (hp : p ≠ 0) (mask : UInt32) (s : Sandbox σ) (log : List Event)
    (j : Journal) :
    ∃ events, Follows (analyzeInput engine.recording p code mask (s.watched log) j)
        (analyzeInput engine p code mask s j) log events ∧
      ∀ m₀ m₁ freed, Exchange code mask
        (⟨.alloc code.length.toUInt32 (.returned p), m₀, s.memory⟩ ::
          (events ++ [⟨.dealloc p code.length.toUInt32 freed,
            (analyzeInput engine p code mask s j).2.1.memory, m₁⟩]))
        (analyzeInput engine p code mask s j).1 := by
  unfold analyzeInput
  rw [watched_memory]
  cases hwrite : s.memory.write? p.toNat code with
  | none =>
    refine ⟨[], by simp [Follows], fun m₀ m₁ freed => ?_⟩
    exact .unwritten hcode hp (LinearMemory.write?_eq_none_iff.mp hwrite)
  | some written =>
    have hfit := LinearMemory.holds_of_write? hwrite
    have hcall : engine.recording.analyze p code.length.toUInt32 mask
        { s.watched log with memory := written } = _ :=
      record_watched (.analyze p code.length.toUInt32 mask)
        (engine.analyze p code.length.toUInt32 mask) ⟨written, s.state⟩ log
    dsimp only
    rw [hcall]
    rcases engine.analyze p code.length.toUInt32 mask ⟨written, s.state⟩ with ⟨r | _, after⟩
    case trapped =>
      refine ⟨_, rfl, fun m₀ m₁ freed => ?_⟩
      exact .unreported hcode hp hfit hwrite (.inl rfl)
    case returned =>
      dsimp only
      by_cases hr : r = 0
      · simp only [if_pos hr]
        refine ⟨_, rfl, fun m₀ m₁ freed => ?_⟩
        exact .unreported hcode hp hfit hwrite (.inr (.inl (by rw [hr])))
      · simp only [if_neg hr]
        obtain ⟨events, hfollows, hcollection⟩ := collect_recording engine hr after
          (log ++ [⟨.analyze p code.length.toUInt32 mask (.returned r), written, after.memory⟩]) j
        refine ⟨⟨.analyze p code.length.toUInt32 mask (.returned r), written, after.memory⟩ ::
          events, ?_, fun m₀ m₁ freed => ?_⟩
        · rw [Follows, hfollows, List.append_assoc]
          rfl
        · generalize (collect engine r after j).1 = found at hcollection
          generalize (collect engine r after j).2.1.memory = left at hcollection
          cases hcollection with
          | kept hnone => exact .unreported hcode hp hfit hwrite hnone
          | released hlength hsize => exact .reported hcode hp hfit hwrite hr hlength hsize

/-- One call spans linear memory before and after it. -/
theorem spans_singleton (e : Event) : Spans e.before [e] e.after := by simp [Spans]

/-- Several calls span linear memory before the first and after the last of them. -/
theorem spans_concat (first last : Event) (between : List Event) :
    Spans first.before (first :: (between ++ [last])) last.after := by
  refine ⟨by simp, ?_, by simp⟩
  intro e he
  have hlast : (first :: (between ++ [last])).getLast? = some last :=
    List.getLast?_concat (l := first :: between)
  rw [hlast] at he
  cases he
  rfl

/-- An analysis on the recording engine does what it does on the engine itself, and the calls that
are logged are those of an exchange. Linear memory is handed to the first call as it was, and left
as the last call left it. -/
theorem analyze_spans (engine : Engine σ) (code : Bytes) (mask : UInt32) (s : Sandbox σ)
    (log : List Event) (j : Journal) :
    ∃ events, Follows (analyze engine.recording code mask (s.watched log) j)
        (analyze engine code mask s j) log events ∧
      Exchange code mask events (analyze engine code mask s j).1 ∧
      Spans s.memory events (analyze engine code mask s j).2.1.memory := by
  unfold analyze begin
  by_cases hempty : code = []
  · simp only [if_pos hempty]
    exact ⟨[], by simp [Follows], .unasked (.inl hempty), by simp [Spans]⟩
  by_cases hlong : 0x100000000 ≤ code.length
  · simp only [if_neg hempty, if_pos hlong]
    exact ⟨[], by simp [Follows], .unasked (.inr hlong), by simp [Spans]⟩
  have hcode : Addressable code := ⟨hempty, by omega⟩
  simp only [if_neg hempty, if_neg hlong]
  have hcall : engine.recording.alloc code.length.toUInt32 (s.watched log) = _ :=
    record_watched (.alloc code.length.toUInt32) (engine.alloc code.length.toUInt32) s log
  rw [hcall]
  rcases engine.alloc code.length.toUInt32 s with ⟨p | _, after⟩
  case trapped => exact ⟨_, rfl, .unallocated hcode (.inl rfl), spans_singleton _⟩
  case returned =>
    dsimp only
    by_cases hp : p = 0
    · simp only [if_pos hp]
      exact ⟨_, rfl, .unallocated hcode (.inr (by rw [hp])), spans_singleton _⟩
    · simp only [if_neg hp, complete]
      obtain ⟨events, hfollows, hexchange⟩ := analyzeInput_recording engine hcode hp mask after
        (log ++ [⟨.alloc code.length.toUInt32 (.returned p), s.memory, after.memory⟩])
        (j.count Metrics.recordAllocation)
      rw [hfollows]
      dsimp only
      rw [release_recording]
      refine ⟨_, ?_, hexchange s.memory
        (release engine p code.length.toUInt32
          (analyzeInput engine p code mask after (j.count Metrics.recordAllocation)).2.1
          (analyzeInput engine p code mask after (j.count Metrics.recordAllocation)).2.2).1.memory
        (engine.dealloc p code.length.toUInt32
          (analyzeInput engine p code mask after (j.count Metrics.recordAllocation)).2.1).1,
        spans_concat _ _ events⟩
      rw [Follows, List.append_assoc, List.append_assoc]
      rfl

/-- The calls that an analysis makes of a recording engine are those of an exchange. -/
theorem analyze_recording (engine : Engine σ) (code : Bytes) (mask : UInt32) (s : Sandbox σ)
    (log : List Event) (j : Journal) :
    ∃ events, Follows (analyze engine.recording code mask (s.watched log) j)
        (analyze engine code mask s j) log events ∧
      Exchange code mask events (analyze engine code mask s j).1 := by
  obtain ⟨events, hfollows, hexchange, -⟩ := analyze_spans engine code mask s log j
  exact ⟨events, hfollows, hexchange⟩

end Sandbox

end EngineHost
