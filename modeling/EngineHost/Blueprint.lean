import EngineHost.Engine
import EngineHost.Module

/-!
# Blueprints

A module that has been compiled, out of which any number of sandboxes can be opened. Opening checks
that the module offers what the host needs, in a fixed order.
-/

namespace EngineHost

/-- What a module offers under the name of an entry point. -/
inductive Export where
  /-- Nothing that can be called. -/
  | missing
  /-- A function of another signature. -/
  | mismatched
  /-- The function that the host needs. -/
  | matching
  deriving DecidableEq, Repr

/-- `CompiledEngine`: a compiled module. -/
structure Blueprint (σ : Type) where
  /-- The sandbox of a fresh start, unless starting fails. -/
  start : Option (Sandbox σ)
  /-- The memory is there for the host. -/
  memory : Bool
  /-- The entry point that gives buffers. -/
  alloc : Export
  /-- The entry point that takes buffers back. -/
  dealloc : Export
  /-- The entry point that analyzes. -/
  analyze : Export
  /-- What the entry points do. -/
  engine : Engine σ

/-- What a compiler makes of the bytes of a module, if they can be compiled. -/
abbrev Compiler (σ : Type) := Bytes → Option (Blueprint σ)

namespace Blueprint

variable {σ : Type}

/-- `MEMORY_EXPORT`: the name of the memory. -/
def memoryName : String := "memory"

/-- `ALLOC_EXPORT`: the name of the entry point that gives buffers. -/
def allocName : String := "wasm_alloc"

/-- `DEALLOC_EXPORT`: the name of the entry point that takes buffers back. -/
def deallocName : String := "wasm_dealloc"

/-- `ANALYZE_EXPORT`: the name of the entry point that analyzes. -/
def analyzeName : String := "contract_info"

/-- `typed_export`: checks an entry point. -/
def checkExport (name : String) : Export → Except LoadFault Unit
  | .missing => .error (.missingExport name)
  | .mismatched => .error (.signature name)
  | .matching => .ok ()

/-- The debug form of `CompiledEngine`: a short description of a blueprint of a module with this
digest. -/
def description (digest : String) : String :=
  "CompiledEngine \x7b digest: " ++ Text.quote digest ++ " \x7d"

/-- `Sandbox.instantiate`: opens a sandbox. -/
def instantiate (b : Blueprint σ) : Except LoadFault (Sandbox σ) := do
  match b.start with
  | none => throw .instantiation
  | some sandbox =>
    if !b.memory then throw (.missingExport memoryName)
    checkExport allocName b.alloc
    checkExport deallocName b.dealloc
    checkExport analyzeName b.analyze
    return sandbox

/-- `CompiledEngine.compile`: compiles a module. -/
def ofModule (compiler : Compiler σ) (m : Module) : Except LoadFault (Blueprint σ) :=
  match compiler m.bytes with
  | none => .error .compilation
  | some b => .ok b

end Blueprint

/-- The bytes of a module that has no parts: its mark and the version of the format. -/
def emptyModuleBytes : Bytes := [0x00, 0x61, 0x73, 0x6D, 0x01, 0x00, 0x00, 0x00]

/-- An engine that does nothing but trap. -/
def Engine.trapping (σ : Type) : Engine σ where
  alloc := fun _ sandbox => (.trapped, sandbox)
  analyze := fun _ _ _ sandbox => (.trapped, sandbox)
  dealloc := fun _ _ sandbox => (.trapped, sandbox)

/-- The compiler that knows only the module without parts, which offers nothing. -/
def Compiler.bare {σ : Type} (state : σ) : Compiler σ := fun bytes =>
  if bytes = emptyModuleBytes then
    some {
      start := some ⟨.zeros 0, state⟩
      memory := false
      alloc := .missing
      dealloc := .missing
      analyze := .missing
      engine := .trapping σ }
  else none

end EngineHost
