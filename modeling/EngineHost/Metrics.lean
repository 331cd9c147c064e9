import EngineHost.Json.Printer
import EngineHost.Json.Record

/-!
# Call metrics

Counters of what has happened on a handle or a pool. They have 64 bits and wrap around.
-/

namespace EngineHost

open Json

/-- `EngineMetrics` and `MetricsSnapshot`: the counters. -/
structure Metrics where
  /-- Calls that reached the sandbox. -/
  calls : UInt64 := 0
  /-- Those of them that failed. -/
  failures : UInt64 := 0
  /-- Input buffers that the engine gave. -/
  allocations : UInt64 := 0
  /-- Input buffers that were given back. -/
  deallocations : UInt64 := 0
  /-- Result buffers that were given back. -/
  resultReleases : UInt64 := 0
  /-- Releases that the engine did not survive. -/
  cleanupFailures : UInt64 := 0
  /-- Bytes of results. -/
  payloadBytes : UInt64 := 0
  deriving DecidableEq, Repr

namespace Metrics

/-- `record_call`: counts a call that reached the sandbox. -/
def recordCall (m : Metrics) (failed : Bool) : Metrics :=
  { m with calls := m.calls + 1, failures := if failed then m.failures + 1 else m.failures }

/-- `record_allocation`: counts an input buffer that the engine gave. -/
def recordAllocation (m : Metrics) : Metrics := { m with allocations := m.allocations + 1 }

/-- `record_deallocation`: counts an input buffer that was given back. -/
def recordDeallocation (m : Metrics) : Metrics := { m with deallocations := m.deallocations + 1 }

/-- `record_result_release`: counts a result buffer that was given back. -/
def recordResultRelease (m : Metrics) : Metrics :=
  { m with resultReleases := m.resultReleases + 1 }

/-- `record_cleanup_failure`: counts a release that trapped. -/
def recordCleanupFailure (m : Metrics) : Metrics :=
  { m with cleanupFailures := m.cleanupFailures + 1 }

/-- `record_payload`: counts the bytes of a result. -/
def recordPayload (m : Metrics) (bytes : UInt64) : Metrics :=
  { m with payloadBytes := m.payloadBytes + bytes }

/-- `outstanding_buffers`: the input buffers that are not given back yet, and never fewer than none.
-/
def outstanding (m : Metrics) : UInt64 :=
  if m.deallocations ≤ m.allocations then m.allocations - m.deallocations else 0

/-- `failure_rate`: the share of calls that failed; without calls, zero. -/
def failureRate (m : Metrics) : Float :=
  if m.calls = 0 then 0 else m.failures.toFloat / m.calls.toFloat

/-- The counters as a JSON object. -/
def toJson (m : Metrics) : Value :=
  .object [
    ("calls", .natural m.calls),
    ("failures", .natural m.failures),
    ("allocations", .natural m.allocations),
    ("deallocations", .natural m.deallocations),
    ("result_releases", .natural m.resultReleases),
    ("cleanup_failures", .natural m.cleanupFailures),
    ("payload_bytes", .natural m.payloadBytes)]

/-- What has been read of the counters. -/
structure Draft where
  calls : Option UInt64 := none
  failures : Option UInt64 := none
  allocations : Option UInt64 := none
  deallocations : Option UInt64 := none
  resultReleases : Option UInt64 := none
  cleanupFailures : Option UInt64 := none
  payloadBytes : Option UInt64 := none

/-- The record of the counters. -/
def record : Record Node Draft Metrics where
  name := "MetricsSnapshot"
  fields := [
    { name := "calls"
      read := Read.counter
      put := fun x d => { d with calls := some x }
      get := (·.calls) },
    { name := "failures"
      read := Read.counter
      put := fun x d => { d with failures := some x }
      get := (·.failures) },
    { name := "allocations"
      read := Read.counter
      put := fun x d => { d with allocations := some x }
      get := (·.allocations) },
    { name := "deallocations"
      read := Read.counter
      put := fun x d => { d with deallocations := some x }
      get := (·.deallocations) },
    { name := "result_releases"
      read := Read.counter
      put := fun x d => { d with resultReleases := some x }
      get := (·.resultReleases) },
    { name := "cleanup_failures"
      read := Read.counter
      put := fun x d => { d with cleanupFailures := some x }
      get := (·.cleanupFailures) },
    { name := "payload_bytes"
      read := Read.counter
      put := fun x d => { d with payloadBytes := some x }
      get := (·.payloadBytes) }]
  blank := {}
  build := fun d => do
    return {
      calls := ← require "calls" d.calls
      failures := ← require "failures" d.failures
      allocations := ← require "allocations" d.allocations
      deallocations := ← require "deallocations" d.deallocations
      resultReleases := ← require "result_releases" d.resultReleases
      cleanupFailures := ← require "cleanup_failures" d.cleanupFailures
      payloadBytes := ← require "payload_bytes" d.payloadBytes }

end Metrics

end EngineHost
