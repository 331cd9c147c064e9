/-!
# Faults of compressed data
-/

namespace EngineHost.Gzip

/-- Why a byte string is no gzip member. -/
inductive Fault where
  /-- It ends in the header or in the trailer. -/
  | unexpectedEnd
  /-- The header names another method, or uses reserved flags. -/
  | invalidHeader
  /-- A name or a comment in the header is too long. -/
  | longField
  /-- A checksum or the length is not that of the data. -/
  | wrongChecksum
  /-- The compressed data ends early. -/
  | incompleteData
  /-- The compressed data is invalid. -/
  | corruptData
  deriving DecidableEq, Repr

/-- The wording of a fault. -/
def Fault.message : Fault → String
  | .unexpectedEnd => "unexpected end of file"
  | .invalidHeader => "invalid gzip header"
  | .longField => "gzip header field too long"
  | .wrongChecksum => "corrupt gzip stream does not have a matching checksum"
  | .incompleteData => "incomplete deflate stream"
  | .corruptData => "corrupt deflate stream"

end EngineHost.Gzip
