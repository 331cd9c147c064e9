import EngineHost.Config
import EngineHost.Pool

/-!
# Analyzers

An engine that has been loaded once and analyzes many contracts, on a pool of handles.
-/

namespace EngineHost

/-- `Analyzer`: a loaded engine. -/
structure Analyzer (σ : Type) where
  /-- What the entry points of the engine do. -/
  engine : Engine σ
  /-- The handles. -/
  pool : Pool σ
  /-- The digest of the engine's module. -/
  digest : Bytes

namespace Analyzer

variable {σ : Type}

/-- Opens `size` handles of an engine whose module has this digest. -/
def ofBlueprint (b : Blueprint σ) (digest : Bytes) (size : Nat) : Except LoadFault (Analyzer σ) :=
  (Pool.ofBlueprint b size).map fun pool => ⟨b.engine, pool, digest⟩

/-- `Analyzer.with_module`: loads an engine from its module, with `size` handles. -/
def ofModule (compiler : Compiler σ) (m : Module) (size : Nat) : Except LoadFault (Analyzer σ) :=
  match Blueprint.ofModule compiler m with
  | .error fault => .error fault
  | .ok b => ofBlueprint b m.digest size

/-- `Analyzer.new`: loads the engine of a configuration, on a machine with this number of
processors. -/
def ofConfig (compiler : Compiler σ) (files : Files) (env : Environment) (processors : Nat)
    (c : Config) : Except LoadFault (Analyzer σ) :=
  match c.loadModule files env with
  | .error fault => .error fault
  | .ok m => ofModule compiler m (c.poolSize.count processors)

/-- `Analyzer.contract_info_request`: analyzes the code of a request. -/
def analyze (a : Analyzer σ) (request : Request) : Except Error Contract × Analyzer σ :=
  let (result, pool) := a.pool.analyze a.engine request false false
  (result.bind decodePayload, { a with pool := pool })

/-- `Analyzer.contract_info_hex`: analyzes code that is written in hexadecimal. -/
def analyzeHex (a : Analyzer σ) (code : String) (options : Options) :
    Except Error Contract × Analyzer σ :=
  match Request.ofHex code options with
  | .error e => (.error e, a)
  | .ok request => a.analyze request

/-- `Analyzer.close`: closes all handles. -/
def close (a : Analyzer σ) : Except Error Unit × Analyzer σ :=
  let (result, pool) := a.pool.close
  (result, { a with pool := pool })

/-- The debug form of `Analyzer`: a short description of an analyzer whose module has this digest.
-/
def description (digest : String) (a : Analyzer σ) : String :=
  "Analyzer \x7b pool: " ++ a.pool.description ++ ", module_digest: " ++ Text.quote digest ++
    " \x7d"

end Analyzer

end EngineHost
