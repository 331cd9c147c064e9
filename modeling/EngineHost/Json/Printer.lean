import EngineHost.Json.Value

/-!
# Writing JSON

The text of a value, without any blank or with one member or item a line. Strings escape the
quotation mark, the backslash and control characters, and nothing else.
-/

namespace EngineHost.Json

/-- A byte inside a quoted string. -/
def escapeByte (b : UInt8) : Bytes :=
  if b = 34 then [92, 34]
  else if b = 92 then [92, 92]
  else if b = 8 then [92, 98]
  else if b = 9 then [92, 116]
  else if b = 10 then [92, 110]
  else if b = 12 then [92, 102]
  else if b = 13 then [92, 114]
  else if b < 32 then [92, 117, 48, 48, Hex.digitByte (b / 16), Hex.digitByte (b % 16)]
  else [b]

/-- A text in quotation marks. -/
def quotedBytes (s : String) : Bytes :=
  34 :: (Bytes.ofText s).flatMap escapeByte ++ [34]

/-- A natural number in decimal digits. -/
def naturalBytes (n : Nat) : Bytes := (Decimal.digits n).map Decimal.digitByte

/-- A number in decimal digits. -/
def Number.bytes : Number → Bytes
  | .integer i => if i < 0 then 45 :: naturalBytes i.natAbs else naturalBytes i.natAbs
  | .real x => Bytes.ofText (realLayout.text x)

/-- The word of a truth value. -/
def booleanBytes : Bool → Bytes
  | true => [116, 114, 117, 101]
  | false => [102, 97, 108, 115, 101]

/-- The word `null`. -/
def nullBytes : Bytes := [110, 117, 108, 108]

mutual

/-- The text of a value without blanks. -/
def Value.compact : Value → Bytes
  | .null => nullBytes
  | .boolean b => booleanBytes b
  | .number n => n.bytes
  | .string s => quotedBytes s
  | .array items => 91 :: Value.compactItems true items ++ [93]
  | .object members => 123 :: Value.compactMembers true members ++ [125]

/-- The texts of items with commas between them, and one in front unless they are the first. -/
def Value.compactItems (first : Bool) : List Value → Bytes
  | [] => []
  | v :: rest => (if first then [] else [44]) ++ v.compact ++ Value.compactItems false rest

/-- The texts of members with commas between them, and one in front unless they are the first. -/
def Value.compactMembers (first : Bool) : List (String × Value) → Bytes
  | [] => []
  | (key, v) :: rest =>
    (if first then [] else [44]) ++ quotedBytes key ++ 58 :: v.compact ++
      Value.compactMembers false rest

end

/-- A new line, indented by two blanks a level. -/
def newLine (level : Nat) : Bytes := 10 :: List.replicate (2 * level) 32

mutual

/-- The text of a value with every item and member on a line of its own; empty containers stay on
one line. -/
def Value.pretty (level : Nat) : Value → Bytes
  | .null => nullBytes
  | .boolean b => booleanBytes b
  | .number n => n.bytes
  | .string s => quotedBytes s
  | .array [] => [91, 93]
  | .array (v :: rest) =>
    91 :: newLine (level + 1) ++ v.pretty (level + 1) ++ Value.prettyItems (level + 1) rest ++
      newLine level ++ [93]
  | .object [] => [123, 125]
  | .object ((key, v) :: rest) =>
    123 :: newLine (level + 1) ++ quotedBytes key ++ 58 :: 32 :: v.pretty (level + 1) ++
      Value.prettyMembers (level + 1) rest ++ newLine level ++ [125]

/-- The lines of the items after the first. -/
def Value.prettyItems (level : Nat) : List Value → Bytes
  | [] => []
  | v :: rest => 44 :: newLine level ++ v.pretty level ++ Value.prettyItems level rest

/-- The lines of the members after the first. -/
def Value.prettyMembers (level : Nat) : List (String × Value) → Bytes
  | [] => []
  | (key, v) :: rest =>
    44 :: newLine level ++ quotedBytes key ++ 58 :: 32 :: v.pretty level ++
      Value.prettyMembers level rest

end

/-- The value of a counter or an offset. -/
def Value.natural (n : UInt64) : Value := .number (.integer n.toNat)

end EngineHost.Json
