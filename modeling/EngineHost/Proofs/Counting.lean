import EngineHost.Proofs.Exchange

/-!
# Counting calls

What the counters of a journal ought to show can be counted in the calls that were recorded. A call
by which a buffer is given back is that of the input or that of a result by what it gives back: the
address and the size have to be those of a buffer that the engine gave.
-/

namespace EngineHost

variable {σ : Type}

/-! ### Calls -/

namespace Event

/-- The engine gives a buffer. -/
def givesBuffer (e : Event) : Bool :=
  match e.call with
  | .alloc _ (.returned p) => p != 0
  | .alloc _ .trapped | .analyze .. | .dealloc .. => false

/-- A buffer is given back. -/
def isRelease (e : Event) : Bool :=
  match e.call with
  | .dealloc .. => true
  | .alloc .. | .analyze .. => false

/-- A buffer is given back, and the engine traps. -/
def isTrappedRelease (e : Event) : Bool :=
  match e.call with
  | .dealloc _ _ .trapped => true
  | .dealloc _ _ (.returned ()) | .alloc .. | .analyze .. => false

end Event

/-- What a buffer is for. -/
inductive Purpose where
  | input
  | result
  deriving DecidableEq

/-- The buffers that have to be given back, each with its address and its size. -/
structure Debts where
  /-- The buffer that the engine gave for the code. -/
  input? : Option (UInt32 × UInt32) := none
  /-- The buffer of a result. -/
  result? : Option (UInt32 × UInt32) := none

namespace Debts

/-- Which of the buffers a call gives back. -/
def purpose? (d : Debts) (e : Event) : Option Purpose :=
  match e.call with
  | .dealloc address size _ =>
    if d.result? = some (address, size) then some .result
    else if d.input? = some (address, size) then some .input
    else none
  | .alloc .. | .analyze .. => none

/-- The buffers that have to be given back after a call. A result is known by its address and by the
length in front of it. -/
def after (d : Debts) (e : Event) : Debts :=
  match e.call with
  | .alloc size (.returned p) => if p = 0 then d else { d with input? := some (p, size) }
  | .analyze _ _ _ (.returned r) =>
    if r ≠ 0 ∧ e.after.Holds r.toNat 4 ∧ 4 + e.after.wordAt r.toNat < 0x100000000 then
      { d with result? := some (r, (4 + e.after.wordAt r.toNat).toUInt32) }
    else d
  | .alloc _ .trapped | .analyze _ _ _ .trapped => d
  | .dealloc .. =>
    match d.purpose? e with
    | some .input => { d with input? := none }
    | some .result => { d with result? := none }
    | none => d

/-- The number of calls by which a buffer for this purpose is given back. -/
def releases (purpose : Purpose) : Debts → List Event → Nat
  | _, [] => 0
  | d, e :: rest =>
    (if d.purpose? e = some purpose then 1 else 0) + releases purpose (d.after e) rest

/-- What is given back in the second of two parts depends on what is owed after the first. -/
theorem releases_append (purpose : Purpose) (d : Debts) (first second : List Event) :
    releases purpose d (first ++ second) =
      releases purpose d first + releases purpose (first.foldl after d) second := by
  induction first generalizing d with
  | nil => simp [releases]
  | cons e rest ih => simp only [List.cons_append, releases, List.foldl_cons, ih, Nat.add_assoc]

/-- Where the engine gives no result whose size is known, there is none to be given back. -/
theorem after_of_noResult {d : Debts} {p length mask : UInt32} {answer : Outcome UInt32}
    {m m' : LinearMemory} (hnone : NoResult m' answer) :
    d.after ⟨.analyze p length mask answer, m, m'⟩ = d := by
  rcases hnone with rfl | rfl | ⟨r, rfl, -, hunknown⟩
  · rfl
  · simp [after]
  · have hnot : ¬(r ≠ 0 ∧ m'.Holds r.toNat 4 ∧ 4 + m'.wordAt r.toNat < 0x100000000) := by
      rintro ⟨-, hlength, hsize⟩
      rcases hunknown with hunread | ⟨-, hlarge⟩
      · exact hunread hlength
      · omega
    simp only [after, if_neg hnot]

end Debts

/-- An exchange gives every buffer back that it was given, and at most one result besides, and then
owes nothing. -/
theorem Exchange.releases_eq {code : Bytes} {mask : UInt32} {events : List Event}
    {result : Except Error Bytes} (hexchange : Exchange code mask events result) :
    Debts.releases .input {} events = events.countP (·.givesBuffer) ∧
      Debts.releases .input {} events + Debts.releases .result {} events =
        events.countP (·.isRelease) ∧
      Debts.releases .result {} events ≤ Debts.releases .input {} events ∧
      Debts.releases .input {} events ≤ 1 ∧ events.foldl Debts.after {} = {} := by
  cases hexchange with
  | unasked => simp [Debts.releases]
  | unallocated hcode hanswer =>
    rcases hanswer with rfl | rfl <;>
      simp [Debts.releases, Debts.purpose?, Debts.after, Event.givesBuffer, Event.isRelease]
  | unwritten hcode hp hfit =>
    simp [Debts.releases, Debts.purpose?, Debts.after, Event.givesBuffer, Event.isRelease, hp]
  | unreported hcode hp hfit hwrite hnone =>
    simp only [Debts.releases, List.foldl_cons, Debts.after_of_noResult hnone]
    simp [Debts.purpose?, Debts.after, Event.givesBuffer, Event.isRelease, hp]
  | reported hcode hp hfit hwrite hr hlength hsize =>
    simp [Debts.releases, Debts.purpose?, Debts.after, Event.givesBuffer, Event.isRelease, hp, hr,
      hlength, hsize]

/-! ### Counters beside the log -/

/-- The bytes that a result brings. -/
def payloadOf : Except Error Bytes → Bytes
  | .ok bytes => bytes
  | .error _ => []

/-- What the counters say beyond the calls that are logged. -/
structure Surplus where
  calls : UInt64
  failures : UInt64
  /-- Input buffers that no logged call gave. -/
  given : UInt64
  /-- Input buffers that are not given back. -/
  inUse : UInt64
  /-- Releases that no logged call made. -/
  released : UInt64
  /-- Releases that trapped in no logged call. -/
  trapped : UInt64
  payload : UInt64

namespace Journal

/-- What the counters say beyond the calls of a log. -/
def surplus (j : Journal) (log : List Event) : Surplus where
  calls := j.metrics.calls
  failures := j.metrics.failures
  given := j.metrics.allocations - (log.countP (·.givesBuffer)).toUInt64
  inUse := j.metrics.allocations - j.metrics.deallocations
  released := j.metrics.deallocations + j.metrics.resultReleases -
    (log.countP (·.isRelease)).toUInt64
  trapped := j.metrics.cleanupFailures - (log.countP (·.isTrappedRelease)).toUInt64
  payload := j.metrics.payloadBytes

section Surplus

variable (j : Journal) (log : List Event)

/-- Warnings count for nothing. -/
@[simp] theorem surplus_warn (warning : Warning) :
    (j.warn warning).surplus log = j.surplus log := rfl

/-- The bytes of a payload that is counted add to the surplus. -/
@[simp] theorem surplus_payload (bytes : UInt64) :
    (j.count (·.recordPayload bytes)).surplus log =
      { j.surplus log with payload := (j.surplus log).payload + bytes } := rfl

/-- A counted input buffer adds to those that were given and to those in use. -/
@[simp] theorem surplus_allocation :
    (j.count Metrics.recordAllocation).surplus log =
      { j.surplus log with
        given := (j.surplus log).given + 1, inUse := (j.surplus log).inUse + 1 } := by
  simp only [surplus, count, Metrics.recordAllocation, Surplus.mk.injEq, true_and, and_true]
  constructor <;> grind only

/-- A counted release of an input buffer takes it out of use. -/
@[simp] theorem surplus_deallocation :
    (j.count Metrics.recordDeallocation).surplus log =
      { j.surplus log with
        inUse := (j.surplus log).inUse - 1, released := (j.surplus log).released + 1 } := by
  simp only [surplus, count, Metrics.recordDeallocation, Surplus.mk.injEq, true_and, and_true]
  constructor <;> grind only

/-- A counted release of a result buffer adds to the releases. -/
@[simp] theorem surplus_resultRelease :
    (j.count Metrics.recordResultRelease).surplus log =
      { j.surplus log with released := (j.surplus log).released + 1 } := by
  simp only [surplus, count, Metrics.recordResultRelease, Surplus.mk.injEq, true_and, and_true]
  grind only

/-- A counted failure adds to the releases that trapped. -/
@[simp] theorem surplus_cleanupFailure :
    (j.count Metrics.recordCleanupFailure).surplus log =
      { j.surplus log with trapped := (j.surplus log).trapped + 1 } := by
  simp only [surplus, count, Metrics.recordCleanupFailure, Surplus.mk.injEq, true_and, and_true]
  grind only

/-- A call that is logged takes away from what goes beyond the log. -/
theorem surplus_append (e : Event) :
    j.surplus (log ++ [e]) =
      { j.surplus log with
        given := (j.surplus log).given - (if e.givesBuffer then 1 else 0)
        released := (j.surplus log).released - (if e.isRelease then 1 else 0)
        trapped := (j.surplus log).trapped - (if e.isTrappedRelease then 1 else 0) } := by
  have hcount : ∀ counted : Event → Bool, ((log ++ [e]).countP counted).toUInt64 =
      (log.countP counted).toUInt64 + if counted e then 1 else 0 := by
    intro counted
    rw [List.countP_append, List.countP_singleton, Nat.toUInt64, UInt64.ofNat_add]
    cases counted e <;> rfl
  simp only [surplus, hcount, Surplus.mk.injEq, true_and, and_true]
  refine ⟨?_, ?_, ?_⟩ <;> grind only

variable {m m' : LinearMemory}

/-- A call that only analyzes is not counted. -/
@[simp] theorem surplus_analyze (input length mask : UInt32) (answer : Outcome UInt32) :
    j.surplus (log ++ [⟨.analyze input length mask answer, m, m'⟩]) = j.surplus log := by
  simp [surplus_append, Event.givesBuffer, Event.isRelease, Event.isTrappedRelease]

/-- Neither is one by which the engine gives no buffer. -/
theorem surplus_refused {answer : Outcome UInt32}
    (hanswer : answer = .trapped ∨ answer = .returned 0) (size : UInt32) :
    j.surplus (log ++ [⟨.alloc size answer, m, m'⟩]) = j.surplus log := by
  rcases hanswer with rfl | rfl <;>
    simp [surplus_append, Event.givesBuffer, Event.isRelease, Event.isTrappedRelease]

/-- A logged buffer takes one off those that were given. -/
theorem surplus_given {p : UInt32} (hp : p ≠ 0) (size : UInt32) :
    j.surplus (log ++ [⟨.alloc size (.returned p), m, m'⟩]) =
      { j.surplus log with given := (j.surplus log).given - 1 } := by
  simp [surplus_append, Event.givesBuffer, Event.isRelease, Event.isTrappedRelease, hp]

/-- A logged release takes one off the releases. -/
@[simp] theorem surplus_returned (address size : UInt32) :
    j.surplus (log ++ [⟨.dealloc address size (.returned ()), m, m'⟩]) =
      { j.surplus log with released := (j.surplus log).released - 1 } := by
  simp [surplus_append, Event.givesBuffer, Event.isRelease, Event.isTrappedRelease]

/-- A logged release that trapped takes one off the releases, and off those that trapped. -/
@[simp] theorem surplus_trapped (address size : UInt32) :
    j.surplus (log ++ [⟨.dealloc address size .trapped, m, m'⟩]) =
      { j.surplus log with
        released := (j.surplus log).released - 1, trapped := (j.surplus log).trapped - 1 } := by
  simp [surplus_append, Event.givesBuffer, Event.isRelease, Event.isTrappedRelease]

end Surplus

end Journal

namespace Sandbox

/-- The log of a watched sandbox is the one it was given. -/
@[simp] theorem watched_log (s : Sandbox σ) (log : List Event) :
    (s.watched log).state.2 = log := rfl

variable (engine : Engine σ) (s : Sandbox (σ × List Event)) (j : Journal)

/-- A release is logged before it is counted. -/
theorem release_surplus (address size : UInt32) :
    let released := release engine.recording address size s j
    released.2.surplus released.1.state.2 =
      { j.surplus s.state.2 with released := (j.surplus s.state.2).released - 1 } := by
  unfold release
  rw [recording_dealloc]
  rcases engine.dealloc address size ⟨s.memory, s.state.1⟩ with ⟨_ | _, after⟩
  · exact j.surplus_returned s.state.2 address size
  · simp

/-- A result is given back and counted, or it is not given back. -/
theorem releaseResult_surplus (result length : UInt32) :
    let released := releaseResult engine.recording result length s j
    released.2.surplus released.1.state.2 = j.surplus s.state.2 := by
  unfold releaseResult
  split
  · have hreleased := release_surplus engine s j result (length + UInt32.ofNat lengthBytes)
    dsimp only at hreleased ⊢
    rw [Journal.surplus_resultRelease, hreleased]
    simp
  · exact j.surplus_warn s.state.2 _

/-- What is collected is counted. -/
theorem collect_surplus (result : UInt32) :
    let collected := collect engine.recording result s j
    collected.2.2.surplus collected.2.1.state.2 =
      { j.surplus s.state.2 with
        payload := (j.surplus s.state.2).payload + (payloadOf collected.1).length.toUInt64 } := by
  unfold collect
  cases s.memory.fetch result lengthBytes with
  | error e => simp [payloadOf]
  | ok head =>
    have hreleased := releaseResult_surplus engine s j result (Bytes.toWord head)
    dsimp only at hreleased ⊢
    cases s.payload result (Bytes.toWord head) with
    | error e => simp [payloadOf, hreleased]
    | ok bytes => simp [payloadOf, hreleased]

/-- What the analysis of a buffer brings is counted. -/
theorem analyzeInput_surplus (input : UInt32) (code : Bytes) (mask : UInt32) :
    let analyzed := analyzeInput engine.recording input code mask s j
    analyzed.2.2.surplus analyzed.2.1.state.2 =
      { j.surplus s.state.2 with
        payload := (j.surplus s.state.2).payload + (payloadOf analyzed.1).length.toUInt64 } := by
  unfold analyzeInput
  cases s.memory.write? input.toNat code with
  | none => simp [payloadOf]
  | some written =>
    dsimp only
    rw [recording_analyze]
    rcases engine.analyze input code.length.toUInt32 mask ⟨written, s.state.1⟩ with ⟨r | _, after⟩
    · by_cases hr : r = 0
      · simp [hr, payloadOf]
      · have hcollected := collect_surplus engine (after.watched (s.state.2 ++
          [⟨.analyze input code.length.toUInt32 mask (.returned r), written, after.memory⟩])) j r
        simpa [hr] using hcollected
    · simp [payloadOf]

/-- The second half of an analysis gives one input buffer back. -/
theorem complete_surplus (input : UInt32) (code : Bytes) (mask : UInt32) :
    let completed := complete engine.recording input code mask s j
    completed.2.2.surplus completed.2.1.state.2 =
      { j.surplus s.state.2 with
        inUse := (j.surplus s.state.2).inUse - 1
        payload := (j.surplus s.state.2).payload + (payloadOf completed.1).length.toUInt64 } := by
  have hanalyzed := analyzeInput_surplus engine s j input code mask
  dsimp only [complete] at hanalyzed ⊢
  rw [Journal.surplus_deallocation, release_surplus, hanalyzed]
  simp

/-- A whole analysis counts the calls that it makes, and leaves no input buffer behind. -/
theorem analyze_surplus (code : Bytes) (mask : UInt32) :
    let analyzed := analyze engine.recording code mask s j
    analyzed.2.2.surplus analyzed.2.1.state.2 =
      { j.surplus s.state.2 with
        payload := (j.surplus s.state.2).payload + (payloadOf analyzed.1).length.toUInt64 } := by
  unfold analyze begin
  by_cases hempty : code = []
  · simp [if_pos hempty, payloadOf]
  by_cases hlong : 0x100000000 ≤ code.length
  · simp [if_neg hempty, if_pos hlong, payloadOf]
  simp only [if_neg hempty, if_neg hlong, recording_alloc]
  rcases engine.alloc code.length.toUInt32 ⟨s.memory, s.state.1⟩ with ⟨p | _, after⟩
  · by_cases hp : p = 0
    · simp [hp, payloadOf, Journal.surplus_refused]
    · have hcompleted := complete_surplus engine (after.watched (s.state.2 ++
        [⟨.alloc code.length.toUInt32 (.returned p), s.memory, after.memory⟩]))
        (j.count Metrics.recordAllocation) p code mask
      simpa [hp, Journal.surplus_given] using hcompleted
  · simp [payloadOf, Journal.surplus_refused]

end Sandbox

end EngineHost
