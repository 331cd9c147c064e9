import EngineHost.Error
import EngineHost.Metrics

/-!
# The journal of a host

What a host notes while it works: the counters, and the warnings that concern nobody's result.
-/

namespace EngineHost

/-- Something that went wrong without changing a result. -/
inductive Warning where
  /-- The engine trapped while it took back a buffer. -/
  | releaseTrapped (address size : UInt32)
  /-- The length in front of a result cannot be read, so the result is not given back. -/
  | unreadableLength (address : UInt32) (error : Error)
  /-- A result is too long to be given back. -/
  | resultTooLong (address length : UInt32)
  /-- A handle of a pool could not be closed. -/
  | closeFailed (index : Nat) (error : Error)

/-- The wording of a warning. -/
def Warning.message : Warning → String
  | .releaseTrapped .. => "wasm_dealloc trapped"
  | .unreadableLength .. => "unreadable result prefix, result buffer not released"
  | .resultTooLong .. => "result size overflows u32, result buffer not released"
  | .closeFailed .. => "failed to close pooled handle"

/-- What a host notes. -/
structure Journal where
  /-- The counters. -/
  metrics : Metrics := {}
  /-- The warnings, in order. -/
  warnings : List Warning := []

namespace Journal

/-- Changes the counters. -/
def count (j : Journal) (change : Metrics → Metrics) : Journal :=
  { j with metrics := change j.metrics }

/-- Notes a warning. -/
def warn (j : Journal) (warning : Warning) : Journal :=
  { j with warnings := j.warnings ++ [warning] }

/-- Sets all counters back to zero. -/
def reset (j : Journal) : Journal := { j with metrics := {} }

end Journal

end EngineHost
