import EngineHost.Bytes
import EngineHost.Hex
import EngineHost.Json.Fault

/-!
# Quoted strings

The inside of a JSON string, collected byte by byte into pieces: plain bytes, letter escapes and
escaped UTF-16 units. A string can be read strictly, which gives its text, or only be checked for
its outer form.
-/

namespace EngineHost.Json

/-- One piece of a quoted string. -/
inductive Piece where
  /-- A byte that stands for itself. -/
  | plain (b : UInt8)
  /-- A letter escape, by the byte that it stands for. -/
  | escape (b : UInt8)
  /-- An escaped UTF-16 unit. -/
  | unit (u : Nat)
  deriving DecidableEq, Repr

/-- How a quoted string ends. -/
inductive QuotedEnd where
  /-- With its closing mark. -/
  | closed
  /-- With the text. -/
  | unfinished
  /-- At a control character. -/
  | control
  /-- At a backslash before a byte that names no escape. -/
  | badEscape
  /-- At a unit whose four bytes are not all hexadecimal digits. -/
  | badUnit
  deriving DecidableEq, Repr

/-- The inside of a quoted string. -/
structure Quoted where
  /-- The pieces in order. -/
  pieces : List Piece
  /-- What ends them. -/
  ending : QuotedEnd
  deriving DecidableEq, Repr

/-- The fault of a string that does not close. -/
def QuotedEnd.fault? : QuotedEnd → Option Fault
  | .closed => none
  | .unfinished => some .endInString
  | .control => some .controlCharacter
  | .badEscape => some .invalidEscape
  | .badUnit => some .invalidEscape

/-- The fault of a leading surrogate that is the last piece. -/
def QuotedEnd.afterSurrogate : QuotedEnd → Fault
  | .unfinished => .endInString
  | .badUnit => .invalidEscape
  | _ => .unpairedEscape

/-- The byte that a letter escape stands for. -/
def escaped? (b : UInt8) : Option UInt8 :=
  if b = 34 ∨ b = 92 ∨ b = 47 then some b
  else if b = 98 then some 8
  else if b = 102 then some 12
  else if b = 110 then some 10
  else if b = 114 then some 13
  else if b = 116 then some 9
  else none

/-- The UTF-16 unit that four hexadecimal digits spell. -/
def unit? (bs : Bytes) : Option Nat :=
  (bs.mapM Hex.digit?).map fun ds => ds.foldl (fun n d => n * 16 + d.toNat) 0

/-- A unit that opens a surrogate pair. -/
def isLeading (u : Nat) : Bool := 0xD800 ≤ u && u ≤ 0xDBFF

/-- A unit that closes a surrogate pair. -/
def isTrailing (u : Nat) : Bool := 0xDC00 ≤ u && u ≤ 0xDFFF

/-- The code point of a surrogate pair. -/
def pairedUnits (leading trailing : Nat) : Nat :=
  (leading - 0xD800) * 0x400 + (trailing - 0xDC00) + 0x10000

/-- The UTF-8 bytes of a code point. -/
def codePointBytes (u : Nat) : Bytes := String.utf8EncodeChar (Char.ofNat u)

namespace Quoted

/-- The bytes that pieces stand for, up to the ending. -/
def bytesOf (ending : QuotedEnd) : List Piece → Except Fault Bytes
  | [] =>
    match ending.fault? with
    | none => .ok []
    | some f => .error f
  | .plain b :: ps => (bytesOf ending ps).map (b :: ·)
  | .escape b :: ps => (bytesOf ending ps).map (b :: ·)
  | .unit u :: ps =>
    if isTrailing u then .error .loneSurrogate
    else if isLeading u then
      match ps with
      | .unit v :: rest =>
        if isTrailing v then
          (bytesOf ending rest).map (codePointBytes (pairedUnits u v) ++ ·)
        else .error .loneSurrogate
      | [] => .error ending.afterSurrogate
      | _ => .error .unpairedEscape
    else (bytesOf ending ps).map (codePointBytes u ++ ·)

/-- The text of a quoted string, read strictly. -/
def text (q : Quoted) : Except Fault String :=
  match bytesOf q.ending q.pieces with
  | .error f => .error f
  | .ok bs =>
    match Bytes.text? bs with
    | none => .error .invalidUnicode
    | some s => .ok s

/-- The check of a quoted string that nobody reads: it only has to close. -/
def check (q : Quoted) : Except Fault Unit :=
  match q.ending.fault? with
  | none => .ok ()
  | some f => .error f

/-- A string that has only plain bytes and closes. -/
def ofBytes (bs : Bytes) : Quoted := ⟨bs.map .plain, .closed⟩

end Quoted

/-- The inside of a string while it is being collected. -/
inductive QuotedProgress where
  /-- Between pieces. -/
  | between (pieces : List Piece)
  /-- After a backslash. -/
  | escape (pieces : List Piece)
  /-- Inside an escaped unit, after these bytes of it. -/
  | unit (pieces : List Piece) (bytes : Bytes)

namespace QuotedProgress

/-- One more byte: either the string goes on, or it ends there. Pieces are collected in reverse. -/
def push : QuotedProgress → UInt8 → QuotedProgress ⊕ Quoted
  | .between ps, b =>
    if b = 34 then .inr ⟨ps.reverse, .closed⟩
    else if b = 92 then .inl (.escape ps)
    else if b < 32 then .inr ⟨ps.reverse, .control⟩
    else .inl (.between (.plain b :: ps))
  | .escape ps, b =>
    if b = 117 then .inl (.unit ps [])
    else
      match escaped? b with
      | some e => .inl (.between (.escape e :: ps))
      | none => .inr ⟨ps.reverse, .badEscape⟩
  | .unit ps bs, b =>
    if bs.length < 3 then .inl (.unit ps (bs ++ [b]))
    else
      match unit? (bs ++ [b]) with
      | some u => .inl (.between (.unit u :: ps))
      | none => .inr ⟨ps.reverse, .badUnit⟩

/-- The string that the end of the text cuts off. -/
def cut : QuotedProgress → Quoted
  | .between ps => ⟨ps.reverse, .unfinished⟩
  | .escape ps => ⟨ps.reverse, .unfinished⟩
  | .unit ps _ => ⟨ps.reverse, .unfinished⟩

end QuotedProgress

end EngineHost.Json
