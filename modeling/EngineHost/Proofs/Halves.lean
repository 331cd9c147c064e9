import EngineHost.Pool
import EngineHost.Proofs.Cleanup

/-!
# The halves of an analysis

Between the two halves of an analysis other things may be noted in the journal. What an analysis
answers and what it makes of the sandbox does not depend on the journal, and the analysis adds the
same to the counters of calls and of input buffers, whatever they are.
-/

namespace EngineHost

variable {σ : Type}

/-! ### What does not depend on the journal -/

namespace Sandbox

/-- A release leaves the sandbox as the engine does. -/
theorem release_sandbox (engine : Engine σ) (address size : UInt32) (s : Sandbox σ)
    (j : Journal) : (release engine address size s j).1 = (engine.dealloc address size s).2 := by
  unfold release
  rcases engine.dealloc address size s with ⟨_ | _, after⟩ <;> rfl

/-- The release of a result leaves the sandbox the same, whatever has been noted. -/
theorem releaseResult_sandbox (engine : Engine σ) (result length : UInt32) (s : Sandbox σ)
    (j j' : Journal) :
    (releaseResult engine result length s j).1 = (releaseResult engine result length s j').1 := by
  unfold releaseResult
  split
  · simp only [release_sandbox]
  · rfl

/-- A result is collected in the same way, whatever has been noted. -/
theorem collect_sandbox (engine : Engine σ) (result : UInt32) (s : Sandbox σ) (j j' : Journal) :
    (collect engine result s j).2.1 = (collect engine result s j').2.1 := by
  unfold collect
  cases s.memory.fetch result lengthBytes with
  | error e => rfl
  | ok head =>
    dsimp only
    cases s.payload result (Bytes.toWord head) <;>
      exact releaseResult_sandbox engine result (Bytes.toWord head) s j j'

/-- An analysis leaves the sandbox the same, whatever has been noted. -/
theorem analyzeInput_sandbox (engine : Engine σ) (input : UInt32) (code : Bytes) (mask : UInt32)
    (s : Sandbox σ) (j j' : Journal) :
    (analyzeInput engine input code mask s j).2.1 =
      (analyzeInput engine input code mask s j').2.1 := by
  unfold analyzeInput
  cases s.memory.write? input.toNat code with
  | none => rfl
  | some written =>
    dsimp only
    rcases engine.analyze input code.length.toUInt32 mask ⟨written, s.state⟩ with ⟨r | _, after⟩
    · by_cases hr : r = 0
      · simp only [if_pos hr]
      · simp only [if_neg hr]
        exact collect_sandbox engine r after j j'
    · rfl

/-- The second half leaves the same sandbox, whatever has been noted before. -/
theorem complete_sandbox (engine : Engine σ) (input : UInt32) (code : Bytes) (mask : UInt32)
    (s : Sandbox σ) (j j' : Journal) :
    (complete engine input code mask s j).2.1 = (complete engine input code mask s j').2.1 := by
  simp only [complete, release_sandbox]
  rw [analyzeInput_sandbox engine input code mask s j j']

/-- What the first half adds to a journal. -/
def noteBegin (j : Journal) : Except Error UInt32 → Journal
  | .error _ => j
  | .ok _ => j.count Metrics.recordAllocation

/-- The first half answers the same and leaves the same sandbox, whatever has been noted before. -/
theorem begin_eq (engine : Engine σ) (code : Bytes) (s : Sandbox σ) (j j' : Journal) :
    begin engine code s j =
      ((begin engine code s j').1, (begin engine code s j').2.1,
        noteBegin j (begin engine code s j').1) := by
  unfold begin
  by_cases hempty : code = []
  · simp only [if_pos hempty, noteBegin]
  by_cases hlong : 0x100000000 ≤ code.length
  · simp only [if_neg hempty, if_pos hlong, noteBegin]
  simp only [if_neg hempty, if_neg hlong]
  rcases engine.alloc code.length.toUInt32 s with ⟨input | _, after⟩
  · by_cases hinput : input = 0
    · simp only [if_pos hinput, noteBegin]
    · simp only [if_neg hinput, noteBegin]
  · rfl

/-! ### What the halves come to -/

/-- An analysis that ends with its first half. -/
theorem analyze_of_begin_error {engine : Engine σ} {code : Bytes} {s : Sandbox σ} {j : Journal}
    {e : Error} (hbegin : (begin engine code s j).1 = .error e) (mask : UInt32) :
    answer engine code mask s = .error e ∧
      (analyze engine code mask s j).2.1 = (begin engine code s j).2.1 := by
  rw [← analyze_fst engine code mask s j, analyze]
  rcases hhalf : begin engine code s j with ⟨e' | input, after, noted⟩
  · rw [hhalf] at hbegin
    cases hbegin
    exact ⟨rfl, rfl⟩
  · rw [hhalf] at hbegin
    cases hbegin

/-- An analysis whose second half comes later, when more has been noted. -/
theorem analyze_of_begin_ok {engine : Engine σ} {code : Bytes} {s : Sandbox σ} {j : Journal}
    {input : UInt32} (hbegin : (begin engine code s j).1 = .ok input) (mask : UInt32)
    (later : Journal) :
    let ended := complete engine input code mask (begin engine code s j).2.1 later
    answer engine code mask s = ended.1 ∧ (analyze engine code mask s j).2.1 = ended.2.1 := by
  rw [← analyze_fst engine code mask s j, analyze]
  rcases hhalf : begin engine code s j with ⟨e | input', started, noted⟩
  · rw [hhalf] at hbegin
    cases hbegin
  · rw [hhalf] at hbegin
    cases hbegin
    refine ⟨?_, complete_sandbox engine input code mask started noted later⟩
    simp only [complete, analyzeInput_fst]

/-! ### What the halves count -/

end Sandbox

/-- The counters that every analysis changes: calls, and input buffers that were given and taken
back. -/
structure Tally where
  calls : UInt64
  allocations : UInt64
  deallocations : UInt64

namespace Tally

/-- After the first half of an analysis on a handle, which is the end of it if it fails. -/
def begin (t : Tally) : Except Error UInt32 → Tally
  | .error _ => { t with calls := t.calls + 1 }
  | .ok _ => { t with allocations := t.allocations + 1 }

/-- After the second half of an analysis on a handle. -/
def complete (t : Tally) : Tally :=
  { t with calls := t.calls + 1, deallocations := t.deallocations + 1 }

end Tally

/-- The counters of a journal that every analysis changes. -/
def Journal.tally (j : Journal) : Tally :=
  ⟨j.metrics.calls, j.metrics.allocations, j.metrics.deallocations⟩

namespace Sandbox

/-- A release does not touch the counters that every analysis changes. -/
theorem release_tally (engine : Engine σ) (address size : UInt32) (s : Sandbox σ) (j : Journal) :
    (release engine address size s j).2.tally = j.tally := by
  unfold release
  rcases engine.dealloc address size s with ⟨_ | _, after⟩ <;> rfl

/-- The release of a result does not touch the counters that every analysis changes. -/
theorem releaseResult_tally (engine : Engine σ) (result length : UInt32) (s : Sandbox σ)
    (j : Journal) : (releaseResult engine result length s j).2.tally = j.tally := by
  unfold releaseResult
  split
  · exact release_tally engine result _ s j
  · rfl

/-- Collecting a result does not touch the counters that every analysis changes. -/
theorem collect_tally (engine : Engine σ) (result : UInt32) (s : Sandbox σ) (j : Journal) :
    (collect engine result s j).2.2.tally = j.tally := by
  unfold collect
  cases s.memory.fetch result lengthBytes with
  | error e => rfl
  | ok head =>
    dsimp only
    cases s.payload result (Bytes.toWord head) <;>
      exact releaseResult_tally engine result (Bytes.toWord head) s j

/-- An analysis in a given buffer does not touch the counters that every analysis changes. -/
theorem analyzeInput_tally (engine : Engine σ) (input : UInt32) (code : Bytes) (mask : UInt32)
    (s : Sandbox σ) (j : Journal) :
    (analyzeInput engine input code mask s j).2.2.tally = j.tally := by
  unfold analyzeInput
  cases s.memory.write? input.toNat code with
  | none => rfl
  | some written =>
    dsimp only
    rcases engine.analyze input code.length.toUInt32 mask ⟨written, s.state⟩ with ⟨r | _, after⟩
    · by_cases hr : r = 0
      · simp only [if_pos hr]
      · simp only [if_neg hr]
        exact collect_tally engine r after j
    · rfl

/-- The second half gives the input buffer back, and no other. -/
theorem complete_tally (engine : Engine σ) (input : UInt32) (code : Bytes) (mask : UInt32)
    (s : Sandbox σ) (j : Journal) :
    (complete engine input code mask s j).2.2.tally =
      { j.tally with deallocations := j.tally.deallocations + 1 } := by
  have hrelease := release_tally engine input code.length.toUInt32
    (analyzeInput engine input code mask s j).2.1 (analyzeInput engine input code mask s j).2.2
  rw [analyzeInput_tally engine input code mask s j] at hrelease
  rw [← hrelease]
  rfl

end Sandbox

namespace Handle

/-- The first half of an analysis on an open handle. -/
theorem begin_of_open (engine : Engine σ) (s : Sandbox σ) (j : Journal) (request : Request) :
    let half := Sandbox.begin engine request.code s j
    let h := begin engine ⟨some s, j⟩ request false
    h.1 = half.1 ∧ h.2.sandbox = some half.2.1 ∧ h.2.journal.tally = j.tally.begin half.1 := by
  have hhalf := Sandbox.begin_eq engine request.code s j j
  unfold begin
  simp only [Bool.false_eq_true, if_false]
  rcases hbegin : Sandbox.begin engine request.code s j with ⟨e | input, after, noted⟩
  · rw [hbegin] at hhalf
    obtain rfl : noted = j := congrArg (·.2.2) hhalf
    exact ⟨rfl, rfl, rfl⟩
  · rw [hbegin] at hhalf
    obtain rfl : noted = j.count Metrics.recordAllocation := congrArg (·.2.2) hhalf
    exact ⟨rfl, rfl, rfl⟩

/-- The second half of an analysis on an open handle. -/
theorem complete_of_open (engine : Engine σ) (s : Sandbox σ) (j : Journal) (request : Request)
    (input : UInt32) :
    let ended := Sandbox.complete engine input request.code request.options.mask s j
    let h := complete engine ⟨some s, j⟩ request input false
    h.1 = ended.1 ∧ h.2.sandbox = some ended.2.1 ∧ h.2.journal.tally = j.tally.complete := by
  have htally := Sandbox.complete_tally engine input request.code request.options.mask s j
  have hcount : ∀ (noted : Journal) (failed : Bool), (noted.count (·.recordCall failed)).tally =
      { noted.tally with calls := noted.tally.calls + 1 } := fun _ _ => rfl
  unfold complete
  simp only [Bool.false_eq_true, if_false]
  rcases hended : Sandbox.complete engine input request.code request.options.mask s j with
    ⟨e | bytes, after, noted⟩
  · rw [hended] at htally
    refine ⟨rfl, rfl, ?_⟩
    simp only [hcount, htally, Tally.complete]
  · rw [hended] at htally
    refine ⟨rfl, rfl, ?_⟩
    simp only [hcount, htally, Tally.complete]

end Handle

/-! ### The halves on a handle of a pool -/

namespace Pool

/-- The sandbox of a handle, if there is such a handle and it is open. -/
def seat (p : Pool σ) (index : Nat) : Option (Sandbox σ) := p.seats.getD index none

/-- There is no handle beyond the size of the pool. -/
theorem seat_eq_none_of_le {p : Pool σ} {i : Nat} (hi : p.size ≤ i) : p.seat i = none := by
  rw [size] at hi
  simp [seat, List.getD_eq_getElem?_getD, hi]

/-- What is done on a handle does not change the number of handles. -/
@[simp] theorem size_onSeat {α : Type} (p : Pool σ) (index : Nat) (act : Handle σ → α × Handle σ) :
    (p.onSeat index act).2.size = p.size := by
  simp [onSeat, size]

/-- What is done on a handle has the answer it has there. -/
theorem onSeat_fst {α : Type} (p : Pool σ) (index : Nat) (act : Handle σ → α × Handle σ) :
    (p.onSeat index act).1 = (act ⟨p.seat index, p.journal⟩).1 := rfl

/-- What is done on a handle is noted in the journal of the pool. -/
theorem journal_onSeat {α : Type} (p : Pool σ) (index : Nat) (act : Handle σ → α × Handle σ) :
    (p.onSeat index act).2.journal = (act ⟨p.seat index, p.journal⟩).2.journal := rfl

/-- The handle has the sandbox that was left on it. -/
theorem seat_onSeat_self {α : Type} {p : Pool σ} {index : Nat} (hindex : index < p.size)
    (act : Handle σ → α × Handle σ) :
    (p.onSeat index act).2.seat index = (act ⟨p.seat index, p.journal⟩).2.sandbox := by
  rw [size] at hindex
  simp [onSeat, seat, hindex]

/-- What is done on a handle does not concern the others. -/
theorem seat_onSeat_of_ne {α : Type} {p : Pool σ} {index other : Nat} (hother : other ≠ index)
    (act : Handle σ → α × Handle σ) : (p.onSeat index act).2.seat other = p.seat other := by
  simp [onSeat, seat, List.getD_eq_getElem?_getD, List.getElem?_set_ne hother.symm]

/-- A handle that stays closed, whatever is done on another. -/
theorem seat_onSeat_eq_none {α : Type} {p : Pool σ} {index other : Nat}
    {act : Handle σ → α × Handle σ} (hact : ∀ j, (act ⟨none, j⟩).2.sandbox = none)
    (hclosed : p.seat other = none) : (p.onSeat index act).2.seat other = none := by
  by_cases hother : other = index
  · subst hother
    by_cases hindex : other < p.size
    · rw [seat_onSeat_self hindex, hclosed, hact]
    · rw [size] at hindex
      simp [onSeat, seat, List.getD_eq_getElem?_getD, hindex]
  · rw [seat_onSeat_of_ne hother, hclosed]

section Halves

variable (engine : Engine σ) (request : Request) {p : Pool σ} {index : Nat} {s : Sandbox σ}

/-- No analysis begins on a closed handle. -/
theorem beginAt_of_closed (hclosed : p.seat index = none) :
    (p.beginAt engine index request false).1 = .error .closed ∧
      (p.beginAt engine index request false).2.journal = p.journal := by
  rw [beginAt, onSeat_fst, journal_onSeat, hclosed]
  exact ⟨rfl, rfl⟩

/-- The first half of an analysis on an open handle of a pool. -/
theorem beginAt_of_open (hindex : index < p.size) (hseat : p.seat index = some s) :
    let half := Sandbox.begin engine request.code s p.journal
    (p.beginAt engine index request false).1 = half.1 ∧
      (p.beginAt engine index request false).2.seat index = some half.2.1 ∧
      (p.beginAt engine index request false).2.journal.tally = p.journal.tally.begin half.1 := by
  rw [beginAt, onSeat_fst, seat_onSeat_self hindex, journal_onSeat, hseat]
  exact Handle.begin_of_open engine s p.journal request

/-- The second half of an analysis on an open handle of a pool. -/
theorem completeAt_of_open (hindex : index < p.size) (hseat : p.seat index = some s)
    (input : UInt32) :
    let ended := Sandbox.complete engine input request.code request.options.mask s p.journal
    (p.completeAt engine index request input false).1 = ended.1 ∧
      (p.completeAt engine index request input false).2.seat index = some ended.2.1 ∧
      (p.completeAt engine index request input false).2.journal.tally =
        p.journal.tally.complete := by
  rw [completeAt, onSeat_fst, seat_onSeat_self hindex, journal_onSeat, hseat]
  exact Handle.complete_of_open engine s p.journal request input

end Halves

end Pool

end EngineHost
