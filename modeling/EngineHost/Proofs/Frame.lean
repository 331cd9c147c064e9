import EngineHost.Proofs.Exchange
import Mathlib.Data.List.Chain

/-!
# What the host does to linear memory

An analysis writes to linear memory once: the code goes into the buffer that the engine has just
given, and the engine is asked to analyze it there. Between any other calls, before the first and
after the last one, linear memory stays as the engine left it. A buffer that cannot hold the code is
not written to at all, not even in part.
-/

namespace EngineHost

variable {σ : Type}

/-- The call asks for an analysis. -/
def EngineCall.isAnalysis : EngineCall → Bool
  | .analyze .. => true
  | .alloc .. | .dealloc .. => false

namespace LinearMemory

/-- Linear memory `m'` holds these bytes at the address, and is otherwise what `m` is. -/
structure Overwritten (m : LinearMemory) (address : Nat) (bytes : Bytes) (m' : LinearMemory) :
    Prop where
  holds : m.Holds address bytes.length
  size_eq : m'.size = m.size
  region_eq : m'.region address bytes.length = bytes
  byteAt_eq : ∀ i, i < address ∨ address + bytes.length ≤ i → m'.byteAt i = m.byteAt i

variable {m written : LinearMemory} {address : Nat} {bytes : Bytes}

/-- A byte of what was written. -/
theorem byteAt_of_write? (hwrite : m.write? address bytes = some written) {i : Nat}
    (hi : i < bytes.length) : some (written.byteAt (address + i)) = bytes[i]? := by
  have hfits : address + bytes.length ≤ m.size := holds_of_write? hwrite
  simp only [write?, List.size_toArray, if_pos hfits, Option.some.injEq] at hwrite
  subst hwrite
  have hinside : address ≤ address + i ∧ address + i < address + bytes.length := by omega
  simp [hinside, hi]

/-- A byte outside of what was written. -/
theorem byteAt_of_write?_outside (hwrite : m.write? address bytes = some written) {i : Nat}
    (hi : i < address ∨ address + bytes.length ≤ i) : written.byteAt i = m.byteAt i := by
  have hfits : address + bytes.length ≤ m.size := holds_of_write? hwrite
  simp only [write?, List.size_toArray, if_pos hfits, Option.some.injEq] at hwrite
  subst hwrite
  have houtside : ¬(address ≤ i ∧ i < address + bytes.length) := by omega
  simp [houtside]

/-- A write puts the bytes in their place and changes nothing else. -/
theorem overwritten_of_write? (hwrite : m.write? address bytes = some written) :
    m.Overwritten address bytes written where
  holds := holds_of_write? hwrite
  size_eq := by
    have hfits : address + bytes.length ≤ m.size := holds_of_write? hwrite
    simp only [write?, List.size_toArray, if_pos hfits, Option.some.injEq] at hwrite
    rw [← hwrite]
  region_eq := by
    apply List.ext_getElem?
    intro i
    by_cases hi : i < bytes.length
    · rw [← byteAt_of_write? hwrite hi]
      simp [region, hi]
    · have hlength := length_region written address bytes.length
      rw [List.getElem?_eq_none (by omega), List.getElem?_eq_none (by omega)]
  byteAt_eq := fun _ => byteAt_of_write?_outside hwrite

end LinearMemory

/-- What the host does to linear memory between two calls of an analysis of `code`. -/
inductive HostStep (code : Bytes) (mask : UInt32) : Event → Event → Prop where
  /-- The code is written into the buffer that was given, which the engine then analyzes. -/
  | input {p : UInt32} {answer : Outcome UInt32} {m₀ m₁ m₂ m₃ : LinearMemory}
    (hwritten : m₁.Overwritten p.toNat code m₂) :
    HostStep code mask ⟨.alloc code.length.toUInt32 (.returned p), m₀, m₁⟩
      ⟨.analyze p code.length.toUInt32 mask answer, m₂, m₃⟩
  /-- Before any other call nothing is done. -/
  | idle {e e' : Event} (hother : e'.call.isAnalysis = false) (hsame : e'.before = e.after) :
    HostStep code mask e e'

namespace Exchange

variable {code : Bytes} {mask : UInt32} {events : List Event} {result : Except Error Bytes}

/-- Between the calls of an exchange the host writes the input and nothing else. -/
theorem hostSteps (hexchange : Exchange code mask events result) :
    events.IsChain (HostStep code mask) := by
  cases hexchange with
  | unasked => exact .nil
  | unallocated => exact .singleton _
  | unwritten => exact .cons_cons (.idle rfl rfl) (.singleton _)
  | unreported _ _ _ hwrite _ =>
    have hinput := LinearMemory.overwritten_of_write? hwrite
    exact .cons_cons (.input hinput) (.cons_cons (.idle rfl rfl) (.singleton _))
  | reported _ _ _ hwrite _ _ _ =>
    have hinput := LinearMemory.overwritten_of_write? hwrite
    exact .cons_cons (.input hinput)
      (.cons_cons (.idle rfl rfl) (.cons_cons (.idle rfl rfl) (.singleton _)))

/-- An exchange asks for one analysis at most. -/
theorem countP_isAnalysis_le (hexchange : Exchange code mask events result) :
    events.countP (·.call.isAnalysis) ≤ 1 := by
  cases hexchange <;> simp [EngineCall.isAnalysis]

/-- An exchange starts with its allocation, and not with an analysis. -/
theorem isAnalysis_head (hexchange : Exchange code mask events result) :
    ∀ e ∈ events.head?, e.call.isAnalysis = false := by
  intro e he
  cases hexchange <;> cases he <;> rfl

/-- An allocation is the first call of its exchange. -/
theorem eq_cons_of_alloc_mem {size : UInt32} {answer : Outcome UInt32} {m₀ m₁ : LinearMemory}
    (hexchange : Exchange code mask events result)
    (halloc : ⟨.alloc size answer, m₀, m₁⟩ ∈ events) :
    ∃ rest, events = ⟨.alloc size answer, m₀, m₁⟩ :: rest := by
  cases hexchange <;> simp_all

/-- A buffer that cannot hold the code is given back as it came. -/
theorem eq_of_not_holds {p : UInt32} {m₀ m₁ : LinearMemory}
    (hexchange : Exchange code mask events result)
    (halloc : ⟨.alloc code.length.toUInt32 (.returned p), m₀, m₁⟩ ∈ events) (hp : p ≠ 0)
    (hfit : ¬m₁.Holds p.toNat code.length) :
    ∃ freed m₂, events = [⟨.alloc code.length.toUInt32 (.returned p), m₀, m₁⟩,
      ⟨.dealloc p code.length.toUInt32 freed, m₁, m₂⟩] := by
  -- The allocation comes first, so each case says which event it is.
  obtain ⟨rest, hrest⟩ := hexchange.eq_cons_of_alloc_mem halloc
  cases hexchange with
  | unasked => cases hrest
  | unallocated _ hanswer =>
    cases hrest
    rcases hanswer with htrapped | hnull
    · cases htrapped
    · exact absurd (Outcome.returned.inj hnull) hp
  | unwritten =>
    cases hrest
    exact ⟨_, _, rfl⟩
  | unreported _ _ hholds =>
    cases hrest
    exact absurd hholds hfit
  | reported _ _ hholds =>
    cases hrest
    exact absurd hholds hfit

end Exchange

namespace Sandbox

/-- Whatever the engine does, the host changes linear memory only by writing the code into the
buffer that the engine has given, right before it has the code analyzed, and not at all if the code
does not fit. -/
theorem analyze_frame (engine : Engine σ) (code : Bytes) (mask : UInt32) (s : Sandbox σ)
    (j : Journal) :
    ∃ events,
      Follows (analyze engine.recording code mask (s.watched []) j) (analyze engine code mask s j)
        [] events ∧
      Spans s.memory events (analyze engine code mask s j).2.1.memory ∧
      events.IsChain (HostStep code mask) ∧
      (∀ e ∈ events.head?, e.call.isAnalysis = false) ∧
      events.countP (·.call.isAnalysis) ≤ 1 ∧
      ∀ p m₀ m₁, ⟨.alloc code.length.toUInt32 (.returned p), m₀, m₁⟩ ∈ events → p ≠ 0 →
        ¬m₁.Holds p.toNat code.length →
        ∃ freed m₂, events = [⟨.alloc code.length.toUInt32 (.returned p), m₀, m₁⟩,
          ⟨.dealloc p code.length.toUInt32 freed, m₁, m₂⟩] := by
  obtain ⟨events, hfollows, hexchange, hspans⟩ := analyze_spans engine code mask s [] j
  refine ⟨events, hfollows, hspans, hexchange.hostSteps, hexchange.isAnalysis_head,
    hexchange.countP_isAnalysis_le, ?_⟩
  intro p m₀ m₁ halloc hp hfit
  exact hexchange.eq_of_not_holds halloc hp hfit

/-- Two bytes do not fit at the last address of a page, and linear memory stays as it is. -/
theorem analyze_frame_lastAddress :
    let engine : Engine Unit := {
      alloc := fun _ s => (.returned 65535, s)
      analyze := fun _ _ _ s => (.returned 8, s)
      dealloc := fun _ _ s => (.returned (), s) }
    let s : Sandbox Unit := ⟨.zeros 1, ()⟩
    ∃ freed m₂,
      (analyze engine.recording [96, 0] 1 (s.watched []) {}).2.1.state.2 =
        [⟨.alloc 2 (.returned 65535), .zeros 1, .zeros 1⟩,
          ⟨.dealloc 65535 2 freed, .zeros 1, m₂⟩] := by
  intro engine s
  obtain ⟨events, hfollows, -, -, -, -, hunfit⟩ := analyze_frame engine [96, 0] 1 s {}
  have hlog := congrArg (·.2.1.state.2) hfollows
  have halloc : ⟨.alloc 2 (.returned 65535), .zeros 1, .zeros 1⟩ ∈ events := by
    change _ = events at hlog
    rw [← hlog]
    exact List.mem_cons_self ..
  obtain ⟨freed, m₂, hevents⟩ := hunfit 65535 _ _ halloc (by decide) (by decide)
  exact ⟨freed, m₂, hlog.trans hevents⟩

end Sandbox

end EngineHost
