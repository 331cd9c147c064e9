import EngineHost.Handle
import EngineHost.Proofs.Memory

/-!
# Recorded calls

Around any engine there is a recording one, which keeps a log of the calls that are made of it and
of linear memory before and after each. A host that works with the recording engine does what it
does with the engine itself, so the log tells which calls are made of the engine.
-/

namespace EngineHost

/-- A call of an entry point, with what it came to. -/
inductive EngineCall where
  | alloc (size : UInt32) (answer : Outcome UInt32)
  | analyze (input length mask : UInt32) (answer : Outcome UInt32)
  | dealloc (address size : UInt32) (answer : Outcome Unit)
  deriving DecidableEq, Repr

/-- A call, and linear memory around it. -/
structure Event where
  /-- The call. -/
  call : EngineCall
  /-- Linear memory as the engine is given it. -/
  before : LinearMemory
  /-- Linear memory as the engine leaves it. -/
  after : LinearMemory

variable {σ : Type}

namespace Engine

/-- An entry point that adds an event to the log. -/
def record {α : Type} (describe : Outcome α → EngineCall)
    (entry : Sandbox σ → Outcome α × Sandbox σ) (s : Sandbox (σ × List Event)) :
    Outcome α × Sandbox (σ × List Event) :=
  let (answer, after) := entry ⟨s.memory, s.state.1⟩
  (answer, ⟨after.memory,
    (after.state, s.state.2 ++ [⟨describe answer, s.memory, after.memory⟩])⟩)

/-- The engine that keeps a log of its calls beside the states of `engine`. -/
def recording (engine : Engine σ) : Engine (σ × List Event) where
  alloc := fun size => record (.alloc size) (engine.alloc size)
  analyze := fun input length mask =>
    record (.analyze input length mask) (engine.analyze input length mask)
  dealloc := fun address size => record (.dealloc address size) (engine.dealloc address size)

end Engine

namespace Sandbox

/-- The sandbox of the recording engine, with the calls logged so far. -/
def watched (s : Sandbox σ) (log : List Event) : Sandbox (σ × List Event) :=
  ⟨s.memory, (s.state, log)⟩

/-- A watched sandbox has the memory it had. -/
@[simp] theorem watched_memory (s : Sandbox σ) (log : List Event) :
    (s.watched log).memory = s.memory := rfl

/-- A recorded entry point does what the entry point does, and logs it. -/
theorem record_watched {α : Type} (describe : Outcome α → EngineCall)
    (entry : Sandbox σ → Outcome α × Sandbox σ) (s : Sandbox σ) (log : List Event) :
    Engine.record describe entry (s.watched log) =
      ((entry s).1, (entry s).2.watched
        (log ++ [⟨describe (entry s).1, s.memory, (entry s).2.memory⟩])) := rfl

section Entries

variable (engine : Engine σ) (s : Sandbox (σ × List Event))

/-- The recording engine gives the buffer that the engine gives, and logs the call. -/
theorem recording_alloc (size : UInt32) :
    let called := engine.alloc size ⟨s.memory, s.state.1⟩
    engine.recording.alloc size s = (called.1, called.2.watched
      (s.state.2 ++ [⟨.alloc size called.1, s.memory, called.2.memory⟩])) := rfl

/-- The recording engine analyzes as the engine does, and logs the call. -/
theorem recording_analyze (input length mask : UInt32) :
    let called := engine.analyze input length mask ⟨s.memory, s.state.1⟩
    engine.recording.analyze input length mask s = (called.1, called.2.watched
      (s.state.2 ++ [⟨.analyze input length mask called.1, s.memory, called.2.memory⟩])) := rfl

/-- The recording engine takes a buffer back as the engine does, and logs the call. -/
theorem recording_dealloc (address size : UInt32) :
    let called := engine.dealloc address size ⟨s.memory, s.state.1⟩
    engine.recording.dealloc address size s = (called.1, called.2.watched
      (s.state.2 ++ [⟨.dealloc address size called.1, s.memory, called.2.memory⟩])) := rfl

end Entries

/-- A run on the recording engine ends as the run on the engine itself does, with these events
added to the log. -/
def Follows {α : Type} (recorded : α × Sandbox (σ × List Event) × Journal)
    (plain : α × Sandbox σ × Journal) (log events : List Event) : Prop :=
  recorded = (plain.1, plain.2.1.watched (log ++ events), plain.2.2)

/-- Giving a buffer back is one call. -/
theorem release_recording (engine : Engine σ) (address size : UInt32) (s : Sandbox σ)
    (log : List Event) (j : Journal) :
    release engine.recording address size (s.watched log) j =
      ((release engine address size s j).1.watched
        (log ++ [⟨.dealloc address size (engine.dealloc address size s).1, s.memory,
          (release engine address size s j).1.memory⟩]),
        (release engine address size s j).2) := by
  have hcall : engine.recording.dealloc address size (s.watched log) = _ :=
    record_watched (.dealloc address size) (engine.dealloc address size) s log
  unfold release
  rw [hcall]
  rcases engine.dealloc address size s with ⟨_ | _, after⟩ <;> rfl

end Sandbox

end EngineHost
