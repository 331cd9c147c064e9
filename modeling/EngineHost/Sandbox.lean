import EngineHost.Engine
import EngineHost.Journal

/-!
# Calls into a sandbox

One analysis is a fixed exchange with the engine: the engine gives an input buffer, the host writes
the code into it, the engine analyzes it and gives the address of a result, the host reads the
result and gives both buffers back. A result is preceded by its length in four bytes. The input
buffer is given back on every way out.
-/

namespace EngineHost

/-- `Arena.read`: the bytes at an address of linear memory, or the error that they do not lie
inside. -/
def LinearMemory.fetch (m : LinearMemory) (offset : UInt32) (length : Nat) : Except Error Bytes :=
  match m.read? offset.toNat length with
  | some bytes => .ok bytes
  | none => .error (.memoryAccess offset length m.size)

namespace Sandbox

variable {σ : Type}

/-- `LEN_PREFIX`: the bytes of the length in front of a result. -/
def lengthBytes : Nat := 4

/-- `deallocate`: gives a buffer back. A trap is noted and goes no further. -/
def release (engine : Engine σ) (address size : UInt32) (sandbox : Sandbox σ) (journal : Journal) :
    Sandbox σ × Journal :=
  match engine.dealloc address size sandbox with
  | (.returned (), after) => (after, journal)
  | (.trapped, after) =>
    (after, (journal.count Metrics.recordCleanupFailure).warn (.releaseTrapped address size))

/-- The bytes of a result of this length, as `write_and_analyze` reads them behind the length. -/
def payload (sandbox : Sandbox σ) (result length : UInt32) : Except Error Bytes :=
  if result.toNat + lengthBytes < 0x100000000 then
    sandbox.memory.fetch (result + UInt32.ofNat lengthBytes) length.toNat
  else .error (.memoryAccess result (lengthBytes + length.toNat) sandbox.memory.size)

/-- The release of a result in `write_and_analyze`: the buffer is given back, unless its size has
more than 32 bits. -/
def releaseResult (engine : Engine σ) (result length : UInt32) (sandbox : Sandbox σ)
    (journal : Journal) : Sandbox σ × Journal :=
  if length.toNat + lengthBytes < 0x100000000 then
    let (after, noted) :=
      release engine result (length + UInt32.ofNat lengthBytes) sandbox journal
    (after, noted.count Metrics.recordResultRelease)
  else (sandbox, journal.warn (.resultTooLong result length))

/-- The second half of `write_and_analyze`: reads a result and gives its buffer back. -/
def collect (engine : Engine σ) (result : UInt32) (sandbox : Sandbox σ) (journal : Journal) :
    Except Error Bytes × Sandbox σ × Journal :=
  match sandbox.memory.fetch result lengthBytes with
  | .error e => (.error e, sandbox, journal.warn (.unreadableLength result e))
  | .ok head =>
    let length := Bytes.toWord head
    let found := sandbox.payload result length
    let (after, noted) := releaseResult engine result length sandbox journal
    match found with
    | .error e => (.error e, after, noted)
    | .ok bytes => (.ok bytes, after, noted.count (·.recordPayload bytes.length.toUInt64))

/-- `write_and_analyze`: writes the code into the input buffer and has it analyzed. -/
def analyzeInput (engine : Engine σ) (input : UInt32) (code : Bytes) (mask : UInt32)
    (sandbox : Sandbox σ) (journal : Journal) : Except Error Bytes × Sandbox σ × Journal :=
  match sandbox.memory.write? input.toNat code with
  | none => (.error (.memoryAccess input code.length sandbox.memory.size), sandbox, journal)
  | some memory =>
    match engine.analyze input code.length.toUInt32 mask { sandbox with memory := memory } with
    | (.trapped, after) => (.error (.invocation .trapped), after, journal)
    | (.returned result, after) =>
      if result = 0 then (.error (.invocation .nullResult), after, journal)
      else collect engine result after journal

/-- The first half of `Sandbox.contract_info`, with `allocate`: the engine gives an input buffer. -/
def begin (engine : Engine σ) (code : Bytes) (sandbox : Sandbox σ) (journal : Journal) :
    Except Error UInt32 × Sandbox σ × Journal :=
  if code = [] then (.error (.invalidInput .emptyCode), sandbox, journal)
  else if 0x100000000 ≤ code.length then
    (.error (.invalidInput (.codeTooLong code.length)), sandbox, journal)
  else
    let size := code.length.toUInt32
    match engine.alloc size sandbox with
    | (.trapped, after) => (.error (.allocation size (some Error.trapAccount)), after, journal)
    | (.returned input, after) =>
      if input = 0 then (.error (.allocation size none), after, journal)
      else (.ok input, after, journal.count Metrics.recordAllocation)

/-- The second half of `Sandbox.contract_info`: the code is analyzed, and the input buffer is given
back. -/
def complete (engine : Engine σ) (input : UInt32) (code : Bytes) (mask : UInt32)
    (sandbox : Sandbox σ) (journal : Journal) : Except Error Bytes × Sandbox σ × Journal :=
  let (result, analyzed, noted) := analyzeInput engine input code mask sandbox journal
  let (after, last) := release engine input code.length.toUInt32 analyzed noted
  (result, after, last.count Metrics.recordDeallocation)

/-- `Sandbox.contract_info`: a whole analysis. -/
def analyze (engine : Engine σ) (code : Bytes) (mask : UInt32) (sandbox : Sandbox σ)
    (journal : Journal) : Except Error Bytes × Sandbox σ × Journal :=
  match begin engine code sandbox journal with
  | (.error e, after, noted) => (.error e, after, noted)
  | (.ok input, after, noted) => complete engine input code mask after noted

end Sandbox

end EngineHost
