import EngineHost.Digest
import EngineHost.Error
import EngineHost.Gzip.Member

/-!
# Engine modules

The bytes of an engine, which may come compressed, and their digest.
-/

namespace EngineHost

/-- `EngineModule`: the bytes of an engine. -/
structure Module where
  /-- The bytes, decompressed. -/
  bytes : Bytes
  /-- There is at least one. -/
  ne_nil : bytes ≠ []

namespace Module

/-- The module of plain bytes, of which `from_bytes` wants at least one. -/
def ofPlain (bytes : Bytes) : Except LoadFault Module :=
  if h : bytes = [] then .error .emptyModule else .ok ⟨bytes, h⟩

/-- `EngineModule.from_bytes`: the module of bytes that are decompressed first if they look
compressed. -/
def ofBytes (bytes : Bytes) : Except LoadFault Module :=
  if Gzip.isMember bytes then
    match Gzip.decompress bytes with
    | .error fault => .error (.gzip fault)
    | .ok plain => ofPlain plain
  else ofPlain bytes

/-- `EngineModule.from_file`: the module in a file. -/
def ofFile (files : Files) (path : Bytes) : Except LoadFault Module :=
  match files path with
  | .error fault => .error (.unreadable path fault)
  | .ok bytes => ofBytes bytes

/-- `EngineModule.digest`: the digest of the bytes. -/
def digest (m : Module) : Bytes := Digest.sha256 m.bytes

/-- The debug form of `EngineModule`: a short description of a module. -/
def description (m : Module) : String :=
  "EngineModule \x7b len: " ++ Decimal.text m.bytes.length ++ ", digest: " ++
    Text.quote (Hex.encode m.digest) ++ " \x7d"

end Module

end EngineHost
