import EngineHost.Gzip.Checksum
import EngineHost.Gzip.Inflate

/-!
# Gzip members

A member is a header, compressed data, and a trailer with the checksum and the length of the data.
Whatever follows the member is not looked at.
-/

namespace EngineHost.Gzip

/-- Whether a byte string starts like a gzip member. -/
def isMember : Bytes → Bool
  | 0x1F :: 0x8B :: _ => true
  | _ => false

/-- The bytes after the next `count`. -/
def skip (count : Nat) (bytes : Bytes) : Except Fault Bytes :=
  if bytes.length < count then .error .unexpectedEnd else .ok (bytes.drop count)

/-- The bytes after the optional extra field, which is preceded by its length. -/
def skipExtra : Bytes → Except Fault Bytes
  | l0 :: l1 :: rest => skip (l0.toNat + 256 * l1.toNat) rest
  | _ => .error .unexpectedEnd

/-- The greatest length of a text in the header. -/
def textLimit : Nat := 65535

/-- The bytes after a text that ends with a zero byte. -/
def skipText (bytes : Bytes) : Except Fault Bytes :=
  if textLimit < (bytes.takeWhile (· ≠ 0)).length then .error .longField
  else
    match bytes.dropWhile (· ≠ 0) with
    | _ :: rest => .ok rest
    | [] => .error .unexpectedEnd

/-- Applies a step if a flag is set. -/
def optionally (flag : Bool) (step : Bytes → Except Fault Bytes) (bytes : Bytes) :
    Except Fault Bytes :=
  if flag then step bytes else .ok bytes

/-- The bytes after the check of the header, which covers the header before it. -/
def skipHeaderCheck (member bytes : Bytes) : Except Fault Bytes :=
  match bytes with
  | c0 :: c1 :: rest =>
    let header := member.take (member.length - bytes.length)
    if (checksum header).toNat % 0x10000 = c0.toNat + 256 * c1.toNat then .ok rest
    else .error .wrongChecksum
  | _ => .error .unexpectedEnd

/-- The bytes after the header of a member. -/
def skipHeader (member : Bytes) : Except Fault Bytes := do
  let rest ← skip 10 member
  let method := member.getD 2 0
  let flags := member.getD 3 0
  if method ≠ 8 ∨ flags &&& 0xE0 ≠ 0 then throw .invalidHeader
  let rest ← optionally (flags &&& 0x04 ≠ 0) skipExtra rest
  let rest ← optionally (flags &&& 0x08 ≠ 0) skipText rest
  let rest ← optionally (flags &&& 0x10 ≠ 0) skipText rest
  optionally (flags &&& 0x02 ≠ 0) (skipHeaderCheck member) rest

/-- Checks the trailer against the data. -/
def checkTrailer (data trailer : Bytes) : Except Fault Unit :=
  if trailer.length < 8 then .error .unexpectedEnd
  else if Bytes.toWord trailer = checksum data ∧
      Bytes.toWord (trailer.drop 4) = UInt32.ofNat data.length then .ok ()
  else .error .wrongChecksum

/-- The data of a gzip member. -/
def decompress (member : Bytes) : Except Fault Bytes := do
  let body ← skipHeader member
  let (data, trailer) ← inflate body
  checkTrailer data trailer
  return data

end EngineHost.Gzip
