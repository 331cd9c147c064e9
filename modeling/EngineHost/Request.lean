import EngineHost.Error
import EngineHost.Options

/-!
# Requests

The code to be analyzed, and which analyses are asked for.
-/

namespace EngineHost

/-- `AnalysisRequest`: a request for an analysis. -/
structure Request where
  /-- The code of the contract. -/
  code : Bytes
  /-- The analyses that are asked for. -/
  options : Options := .empty

/-- `AnalysisRequest.from_hex`: the request for code that is written in hexadecimal. -/
def Request.ofHex (code : String) (options : Options) : Except Error Request :=
  match Hex.parse code with
  | .error fault => .error (.invalidInput (.notHex fault))
  | .ok bytes => .ok ⟨bytes, options⟩

end EngineHost
