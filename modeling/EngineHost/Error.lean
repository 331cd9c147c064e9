import EngineHost.Contract.Decode
import EngineHost.Files
import EngineHost.Gzip.Fault

/-!
# Errors of the host

Everything that can go wrong between a caller and an engine. Every error has a kind, which stands
in front of its wording.
-/

namespace EngineHost

/-- Why no engine can be had. -/
inductive LoadFault where
  /-- The module is compressed, and cannot be decompressed. -/
  | gzip (fault : Gzip.Fault)
  | emptyModule
  /-- The file of the module cannot be read. -/
  | unreadable (path : Bytes) (fault : FileFault)
  /-- No module is named, and this variable does not name the bundled one. -/
  | noBundledModule (name : String)
  | compilation
  | instantiation
  | missingExport (name : String)
  /-- An exported function does not have the signature that the host calls it with. -/
  | signature (name : String)
  /-- A fault given in words. -/
  | other (reason : String)

/-- `ABI_REVISION`: the revision of the interface between host and engine. -/
def interfaceRevision : Nat := 1

/-- The wording of a fault. -/
def LoadFault.message : LoadFault → String
  | .gzip fault => "gzip decompression failed: " ++ fault.message
  | .emptyModule => "engine module is empty"
  | .unreadable path fault => "reading " ++ Bytes.lossyText path ++ ": " ++ fault.message
  | .noBundledModule name => "no bundled engine module: " ++ name ++ " is not set"
  | .compilation => "compilation failed"
  | .instantiation => "instantiation failed"
  | .missingExport name => "missing '" ++ name ++ "' export"
  | .signature name =>
    "'" ++ name ++ "' does not match ABI revision " ++ Decimal.text interfaceRevision
  | .other reason => reason

/-- Why the code of a request cannot be analyzed. -/
inductive InputFault where
  | emptyCode
  /-- The code is longer than an engine can address. -/
  | codeTooLong (length : Nat)
  | notHex (fault : Hex.Fault)
  /-- A fault given in words. -/
  | other (reason : String)

/-- The wording of a fault. -/
def InputFault.message : InputFault → String
  | .emptyCode => "empty bytecode"
  | .codeTooLong length =>
    "bytecode of " ++ Decimal.text length ++ " bytes exceeds the sandbox address space"
  | .notHex fault => "bytecode is not valid hex: " ++ fault.message
  | .other reason => reason

/-- Why an engine gave no result. -/
inductive InvocationFault where
  | trapped
  | nullResult
  /-- A fault given in words. -/
  | other (reason : String)

/-- The wording of a fault. -/
def InvocationFault.message : InvocationFault → String
  | .trapped => "engine trapped"
  | .nullResult => "contract_info returned a null pointer"
  | .other reason => reason

/-- `EngineError`: what went wrong. -/
inductive Error where
  | load (fault : LoadFault)
  | invalidInput (fault : InputFault)
  /-- The engine gave no buffer of this size; if it trapped, with an account of the trap. -/
  | allocation (size : UInt32) (trap : Option String)
  /-- These bytes do not lie inside linear memory. -/
  | memoryAccess (offset : UInt32) (length memorySize : Nat)
  | invocation (fault : InvocationFault)
  /-- The result is no contract. -/
  | decode (fault : DecodeFault)
  /-- The handle has been closed. -/
  | closed
  /-- The caller has given up. -/
  | cancelled

namespace Error

/-- `EngineError.kind`: the kind of an error. -/
def kind : Error → String
  | .load _ => "ENGINE_LOAD"
  | .invalidInput _ => "INVALID_INPUT"
  | .allocation .. => "ALLOCATION"
  | .memoryAccess .. => "MEMORY_ACCESS"
  | .invocation _ => "ENGINE_INVOCATION"
  | .decode fault => fault.kind
  | .closed => "ENGINE_CLOSED"
  | .cancelled => "CANCELLED"

/-- A number in hexadecimal digits with their mark. -/
def hexText (n : Nat) : String := "0x" ++ String.ofList (Nat.toDigits 16 n)

/-- The wording of an error. -/
def message : Error → String
  | .decode fault => fault.message
  | e@(.load fault) => e.kind ++ ": " ++ fault.message
  | e@(.invalidInput fault) => e.kind ++ ": " ++ fault.message
  | e@(.invocation fault) => e.kind ++ ": " ++ fault.message
  | e@(.allocation size trap) =>
    e.kind ++ ": engine could not allocate " ++ Decimal.text size.toNat ++ " bytes" ++
      match trap with
      | some account => " (trap: " ++ account ++ ")"
      | none => ""
  | e@(.memoryAccess offset length memorySize) =>
    e.kind ++ ": " ++ Decimal.text length ++ " bytes at offset " ++ hexText offset.toNat ++
      " exceed linear memory of " ++ Decimal.text memorySize ++ " bytes"
  | e@.closed => e.kind ++ ": handle used after close"
  | e@.cancelled => e.kind ++ ": request cancelled by caller"

/-- What a trap has to say for itself is the engine's own business; an error only shows that there
was one. -/
def trapAccount : String := "*"

end Error

end EngineHost
