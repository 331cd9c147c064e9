import EngineHost.Hex

/-!
# Words of fixed width

Selectors and storage slots are byte strings of a fixed width that are written in hexadecimal.
A selector is always written in full, while a slot may be written short and is then filled up with
zeros on the left. Lengths are counted in bytes, the filling in characters.
-/

namespace EngineHost

/-- A byte string of a fixed width. -/
structure Word (width : Nat) where
  /-- The bytes, the most significant first. -/
  bytes : Bytes
  /-- There are as many bytes as the width says. -/
  length_eq : bytes.length = width
  deriving DecidableEq, Repr

/-- A function selector: the four bytes by which a contract's caller names a function. -/
abbrev Selector := Word 4

/-- A storage slot: the 32 bytes that name a place in a contract's storage. -/
abbrev Slot := Word 32

namespace Word

/-- Why a text names no word. -/
inductive Fault where
  /-- The text has the wrong number of bytes. -/
  | wrongLength (width actual : Nat) (source : String)
  /-- The text is no hexadecimal. -/
  | notHex (source : String) (fault : Hex.Fault)
  deriving DecidableEq, Repr

/-- The wording of a fault. -/
def Fault.message : Fault → String
  | .wrongLength width actual source =>
    "expected " ++ Decimal.text (2 * width) ++ " hex characters, got " ++ Decimal.text actual ++
      " in '" ++ source ++ "'"
  | .notHex source fault => "invalid hex '" ++ source ++ "': " ++ fault.message

/-- The text `s`, filled up on the left with zeros to `count` characters. -/
def fill (count : Nat) (s : String) : String :=
  String.ofList (List.replicate (count - s.toList.length) '0' ++ s.toList)

/-- `decode_fixed`: the word of `width` bytes that a text names. Only with `short` may it have fewer
digits than the word, and never none. -/
def parse (width : Nat) (short : Bool) (s : String) : Except Fault (Word width) :=
  let digits := Hex.stripMark s
  let actual := (Bytes.ofText digits).length
  if actual = 0 ∨ 2 * width < actual ∨ (short = false ∧ actual ≠ 2 * width) then
    .error (.wrongLength width actual s)
  else
    match h : Hex.decodeWidth width (Bytes.ofText (fill (2 * width) digits)) with
    | .error fault => .error (.notHex s fault)
    | .ok bytes => .ok ⟨bytes, Hex.length_decodeWidth h⟩

/-- The word in hexadecimal notation. -/
def text {width : Nat} (w : Word width) : String := Hex.encode w.bytes

end Word

/-- The selector that a text names. -/
def Selector.parse (s : String) : Except Word.Fault Selector := Word.parse 4 false s

/-- The slot that a text names. -/
def Slot.parse (s : String) : Except Word.Fault Slot := Word.parse 32 true s

/-- The wording of a fault in a selector's text. -/
def Selector.faultMessage (f : Word.Fault) : String := "invalid selector: " ++ f.message

/-- The wording of a fault in a slot's text. -/
def Slot.faultMessage (f : Word.Fault) : String := "invalid storage slot: " ++ f.message

end EngineHost
