import EngineHost.Proofs.Exchange

/-!
# Cleanup does not change answers

Giving buffers back comes last, and the engine may do anything then: change or grow linear memory,
or trap. The answer of an analysis is settled before. It is made of what the allocation and the
analysis answer and of linear memory as the analysis left it.
-/

namespace EngineHost

namespace Sandbox

variable {σ : Type}

/-- The result at an address, as linear memory stands. -/
def resultAt (s : Sandbox σ) (result : UInt32) : Except Error Bytes :=
  match s.memory.fetch result lengthBytes with
  | .error e => .error e
  | .ok head => s.payload result (Bytes.toWord head)

/-- What the engine's analysis of the code in the buffer at `input` comes to. -/
def answerAt (engine : Engine σ) (input : UInt32) (code : Bytes) (mask : UInt32)
    (s : Sandbox σ) : Except Error Bytes :=
  match s.memory.write? input.toNat code with
  | none => .error (.memoryAccess input code.length s.memory.size)
  | some written =>
    match engine.analyze input code.length.toUInt32 mask ⟨written, s.state⟩ with
    | (.trapped, _) => .error (.invocation .trapped)
    | (.returned result, analyzed) =>
      if result = 0 then .error (.invocation .nullResult) else analyzed.resultAt result

/-- What an analysis comes to if no buffer has to be given back. -/
def answer (engine : Engine σ) (code : Bytes) (mask : UInt32) (s : Sandbox σ) :
    Except Error Bytes :=
  if code = [] then .error (.invalidInput .emptyCode)
  else if 0x100000000 ≤ code.length then .error (.invalidInput (.codeTooLong code.length))
  else
    match engine.alloc code.length.toUInt32 s with
    | (.trapped, _) => .error (.allocation code.length.toUInt32 (some Error.trapAccount))
    | (.returned input, allocated) =>
      if input = 0 then .error (.allocation code.length.toUInt32 none)
      else answerAt engine input code mask allocated

/-- What is collected is the result as it was before its release. -/
theorem collect_fst (engine : Engine σ) (result : UInt32) (s : Sandbox σ) (j : Journal) :
    (collect engine result s j).1 = s.resultAt result := by
  unfold resultAt
  by_cases hlength : s.memory.Holds result.toNat lengthBytes
  · rw [collect_of_holds engine hlength, LinearMemory.fetch_of_holds hlength]
    rfl
  · rw [collect_of_not_holds engine hlength, LinearMemory.fetch_of_not_holds hlength]

/-- The release of the result does not change what the analysis of a buffer comes to. -/
theorem analyzeInput_fst (engine : Engine σ) (input : UInt32) (code : Bytes) (mask : UInt32)
    (s : Sandbox σ) (j : Journal) :
    (analyzeInput engine input code mask s j).1 = answerAt engine input code mask s := by
  unfold analyzeInput answerAt
  cases s.memory.write? input.toNat code with
  | none => rfl
  | some written =>
    dsimp only
    rcases engine.analyze input code.length.toUInt32 mask ⟨written, s.state⟩ with ⟨r | _, after⟩
    · by_cases hr : r = 0
      · simp only [if_pos hr]
      · simp only [if_neg hr]
        exact collect_fst engine r after j
    · rfl

/-- The releases of both buffers do not change what an analysis comes to. -/
theorem analyze_fst (engine : Engine σ) (code : Bytes) (mask : UInt32) (s : Sandbox σ)
    (j : Journal) : (analyze engine code mask s j).1 = answer engine code mask s := by
  unfold analyze begin answer
  by_cases hempty : code = []
  · simp only [if_pos hempty]
  by_cases hlong : 0x100000000 ≤ code.length
  · simp only [if_neg hempty, if_pos hlong]
  simp only [if_neg hempty, if_neg hlong]
  rcases engine.alloc code.length.toUInt32 s with ⟨input | _, allocated⟩
  · by_cases hinput : input = 0
    · simp only [if_pos hinput]
    · simp only [if_neg hinput, complete]
      exact analyzeInput_fst engine input code mask allocated _
  · rfl

/-- The answer asks only for an allocation and an analysis. -/
theorem answer_congr {first second : Engine σ} (halloc : first.alloc = second.alloc)
    (hanalyze : first.analyze = second.analyze) (code : Bytes) (mask : UInt32) (s : Sandbox σ) :
    answer first code mask s = answer second code mask s := by
  unfold answer answerAt
  rw [halloc, hanalyze]

/-- A result that is found is the region behind its length. -/
theorem eq_region_of_resultAt {s : Sandbox σ} {result : UInt32} {bytes : Bytes}
    (hfound : s.resultAt result = .ok bytes) :
    s.memory.Holds (result.toNat + 4) (s.memory.wordAt result.toNat) ∧
      bytes = s.memory.region (result.toNat + 4) (s.memory.wordAt result.toNat) := by
  unfold resultAt at hfound
  by_cases hlength : s.memory.Holds result.toNat lengthBytes
  · rw [LinearMemory.fetch_of_holds hlength] at hfound
    have hregion := eq_region_of_payload hfound
    rwa [Bytes.toNat_toWord (by simp [lengthBytes])] at hregion
  · rw [LinearMemory.fetch_of_not_holds hlength] at hfound
    cases hfound

/-- An answer with a payload goes through an allocation, a write and an analysis, and the payload is
what then stands behind its length. -/
theorem exists_of_answer_ok {engine : Engine σ} {code payload : Bytes} {mask : UInt32}
    {s : Sandbox σ} (hok : answer engine code mask s = .ok payload) :
    ∃ p r allocated written analyzed,
      engine.alloc code.length.toUInt32 s = (.returned p, allocated) ∧
      allocated.memory.write? p.toNat code = some written ∧
      engine.analyze p code.length.toUInt32 mask ⟨written, allocated.state⟩ =
        (.returned r, analyzed) ∧
      analyzed.memory.Holds (r.toNat + 4) (analyzed.memory.wordAt r.toNat) ∧
      payload = analyzed.memory.region (r.toNat + 4) (analyzed.memory.wordAt r.toNat) := by
  unfold answer at hok
  split at hok
  case isTrue => cases hok
  split at hok
  case isTrue => cases hok
  split at hok
  case h_1 => cases hok
  case h_2 p allocated halloc =>
    split at hok
    case isTrue => cases hok
    unfold answerAt at hok
    split at hok
    case h_1 => cases hok
    case h_2 written hwrite =>
      split at hok
      case h_1 => cases hok
      case h_2 r analyzed hanalyze =>
        split at hok
        case isTrue => cases hok
        obtain ⟨hinside, hpayload⟩ := eq_region_of_resultAt hok
        exact ⟨p, r, allocated, written, analyzed, halloc, hwrite, hanalyze, hinside, hpayload⟩

/-- Two engines that allocate and analyze alike give the same answer, whatever they do when buffers
are given back; and a payload is the region that its length announces, in linear memory as the
analysis left it. -/
theorem analyze_fst_eq_of_dealloc {first second : Engine σ} (halloc : first.alloc = second.alloc)
    (hanalyze : first.analyze = second.analyze) (code : Bytes) (mask : UInt32) (s : Sandbox σ)
    (j j' : Journal) :
    (analyze first code mask s j).1 = (analyze second code mask s j').1 ∧
      ∀ payload, (analyze first code mask s j).1 = .ok payload →
        ∃ p r allocated written analyzed,
          first.alloc code.length.toUInt32 s = (.returned p, allocated) ∧
          allocated.memory.write? p.toNat code = some written ∧
          first.analyze p code.length.toUInt32 mask ⟨written, allocated.state⟩ =
            (.returned r, analyzed) ∧
          analyzed.memory.Holds (r.toNat + 4) (analyzed.memory.wordAt r.toNat) ∧
          payload = analyzed.memory.region (r.toNat + 4) (analyzed.memory.wordAt r.toNat) := by
  rw [analyze_fst, analyze_fst]
  exact ⟨answer_congr halloc hanalyze code mask s, fun _ hok => exists_of_answer_ok hok⟩

/-- An engine whose result is the text of an empty object, and which takes buffers back by
`dealloc`. -/
def emptyObjectEngine (dealloc : UInt32 → UInt32 → Sandbox Unit → Outcome Unit × Sandbox Unit) :
    Engine Unit where
  alloc := fun _ s => (.returned 8, s)
  analyze := fun _ _ _ s =>
    (.returned 16, ⟨(s.memory.write? 16 [2, 0, 0, 0, 123, 125]).getD s.memory, ()⟩)
  dealloc := dealloc

/-- A release that traps, and a release that wipes linear memory, leave the same answer. -/
theorem analyze_fst_emptyObjectEngine :
    (analyze (emptyObjectEngine fun _ _ s => (.trapped, s)) [96] 1 ⟨.zeros 1, ()⟩ {}).1 =
        (analyze (emptyObjectEngine fun _ _ _ => (.returned (), ⟨.zeros 2, ()⟩)) [96] 1
          ⟨.zeros 1, ()⟩ {}).1 ∧
      ∃ (r : UInt32) (analyzed : Sandbox Unit),
        analyzed.memory.Holds (r.toNat + 4) (analyzed.memory.wordAt r.toNat) ∧
        [123, 125] = analyzed.memory.region (r.toNat + 4) (analyzed.memory.wordAt r.toNat) := by
  obtain ⟨hsame, hpayload⟩ := @analyze_fst_eq_of_dealloc Unit
    (emptyObjectEngine fun _ _ s => (.trapped, s))
    (emptyObjectEngine fun _ _ _ => (.returned (), ⟨.zeros 2, ()⟩))
    rfl rfl [96] 1 ⟨.zeros 1, ()⟩ {} {}
  obtain ⟨_, r, _, _, analyzed, _, _, _, hinside, hregion⟩ := hpayload [123, 125] rfl
  exact ⟨hsame, r, analyzed, hinside, hregion⟩

end Sandbox

end EngineHost
