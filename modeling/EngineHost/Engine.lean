import EngineHost.Memory

/-!
# Engines

An engine is a state machine with three entry points. Each of them may return any value or trap,
and may do as it likes with its own state and with linear memory.
-/

namespace EngineHost

/-- What a call of an entry point comes to. -/
inductive Outcome (α : Type) where
  | returned (value : α)
  | trapped
  deriving DecidableEq, Repr

/-- An engine that has been started: its memory, and its own state. -/
structure Sandbox (σ : Type) where
  /-- The memory, which the host can read and write. -/
  memory : LinearMemory
  /-- What only the engine knows. -/
  state : σ

/-- The entry points of an engine with states `σ`. -/
structure Engine (σ : Type) where
  /-- Gives a buffer of this size, by its address. -/
  alloc : UInt32 → Sandbox σ → Outcome UInt32 × Sandbox σ
  /-- Analyzes the code at this address and of this length under this mask of options, and gives
  the address of the result. -/
  analyze : UInt32 → UInt32 → UInt32 → Sandbox σ → Outcome UInt32 × Sandbox σ
  /-- Takes back the buffer at this address and of this size. -/
  dealloc : UInt32 → UInt32 → Sandbox σ → Outcome Unit × Sandbox σ

end EngineHost
