import EngineHost.Environment
import EngineHost.Module

/-!
# Configuration

Where the engine module is found, how many handles are opened, and whether the engine is compiled
for speed. The environment can set all three.
-/

namespace EngineHost

/-- A number of handles, as the field `pool_size` has it. -/
inductive PoolSize where
  /-- As many as the machine has processors. -/
  | processors
  /-- This number. -/
  | exactly (n : UInt64)
  deriving DecidableEq, Repr

/-- The number of handles on a machine with this number of processors, where zero means that it is
not known; `default_pool_size` then takes one. -/
def PoolSize.count (processors : Nat) : PoolSize → Nat
  | .processors => max processors 1
  | .exactly n => n.toNat

/-- `EngineConfig`: a configuration. -/
structure Config where
  /-- The file of the engine module. -/
  modulePath : Option Bytes := none
  /-- The number of handles. -/
  poolSize : PoolSize := .processors
  /-- The engine is compiled for speed. -/
  optimize : Bool := true
  deriving DecidableEq, Repr

namespace Config

/-- `WASM_PATH_ENV`: the variable that names the file of the engine module. -/
def modulePathVariable : String := "EVMOLE_WASM_PATH"

/-- `POOL_SIZE_ENV`: the variable that gives the number of handles. -/
def poolSizeVariable : String := "EVMOLE_POOL_SIZE"

/-- `OPTIMIZE_ENV`: the variable that switches compilation for speed on. -/
def optimizeVariable : String := "EVMOLE_OPTIMIZE"

/-- A given number of handles, where zero counts as one. Both `from_env` and `with_pool_size` raise
a zero so. -/
def atLeastOne (n : UInt64) : PoolSize := .exactly (if n = 0 then 1 else n)

/-- `EngineConfig.from_env`: the configuration that the environment asks for. -/
def ofEnvironment (env : Environment) : Config where
  modulePath := Environment.path? (env.get? modulePathVariable)
  poolSize :=
    match Environment.parsed (Environment.natural? 0x10000000000000000)
      (env.get? poolSizeVariable) with
    | some n => atLeastOne n.toUInt64
    | none => .processors
  optimize := Environment.switch true (env.get? optimizeVariable)

/-- `with_wasm_path`: the configuration with this file of the engine module. -/
def withModulePath (c : Config) (path : Bytes) : Config := { c with modulePath := some path }

/-- `with_pool_size`: the configuration with this number of handles. -/
def withPoolSize (c : Config) (n : UInt64) : Config := { c with poolSize := atLeastOne n }

/-- `with_optimize`: the configuration with or without compilation for speed. -/
def withOptimize (c : Config) (optimize : Bool) : Config := { c with optimize := optimize }

/-- `EngineModule.bundled`: the module that comes with the program, which is the one that the
environment names. -/
def bundledModule (files : Files) (env : Environment) : Except LoadFault Module :=
  match Environment.path? (env.get? modulePathVariable) with
  | some path => Module.ofFile files path
  | none => .error (.noBundledModule modulePathVariable)

/-- `EngineConfig.load_module`: the engine module of a configuration. -/
def loadModule (files : Files) (env : Environment) (c : Config) : Except LoadFault Module :=
  match c.modulePath with
  | some path => Module.ofFile files path
  | none => bundledModule files env

end Config

end EngineHost
