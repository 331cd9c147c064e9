import EngineHost.Decimal.Shortest
import EngineHost.Text.Quoted

/-!
# Faults of a JSON text

Why a text is no JSON, or why a JSON value is not what a reader expects. The wording of all faults
is given here, once.
-/

namespace EngineHost.Json

/-- What a reader met where it expected something else. -/
inductive Unexpected where
  | null
  | boolean (b : Bool)
  | integer (i : Int)
  | real (x : Float)
  | string (s : String)
  | sequence
  | map

/-- What a reader expects. -/
inductive Expected where
  /-- A byte offset of 64 bits. -/
  | offset
  /-- A number of eight bits. -/
  | byte
  /-- A counter of 64 bits. -/
  | counter
  | string
  | boolean
  | sequence
  /-- The value `null`, where a choice carries no data. -/
  | unit
  /-- A record of this name. -/
  | record (name : String)
  /-- Two values in an array that stand for this. -/
  | pair (what : String)

/-- Why a text is not the JSON that a reader expects. -/
inductive Fault where
  | endInValue
  | endInList
  | endInObject
  | endInString
  | expectedValue
  | expectedWord
  | expectedColon
  | expectedListEnd
  | expectedObjectEnd
  | keyNotString
  | trailingComma
  | trailingCharacters
  | controlCharacter
  | invalidEscape
  | loneSurrogate
  | unpairedEscape
  | invalidUnicode
  | invalidNumber
  | numberOutOfRange
  | nestedTooDeep
  /-- A value of the wrong kind. -/
  | invalidType (found : Unexpected) (expected : Expected)
  /-- An integer outside the range of its type. -/
  | invalidValue (i : Int) (expected : Expected)
  /-- An array that ends before the field with this index of a record. -/
  | tooShort (index : Nat) (record : String) (fields : Nat)
  /-- An array of this length that has more items than the record has fields. -/
  | tooLong (length : Nat)
  | missingField (name : String)
  | duplicateField (name : String)
  /-- A name outside a closed set of names. -/
  | unknownVariant (name : String) (allowed : List String)
  /-- A value of the right kind that its type refuses, in the type's own words. -/
  | refused (reason : String)

/-- Doubles in messages: positional from `1e-5` up to below `1e16`, else with an exponent that
always carries its sign. -/
def realLayout : Decimal.Layout := ⟨-5, 15⟩

/-- A text between grave accents. -/
def backquoted (s : String) : String := "`" ++ s ++ "`"

/-- How a message names what was met. -/
def Unexpected.text : Unexpected → String
  | .null => "null"
  | .boolean b => "boolean " ++ backquoted (if b then "true" else "false")
  | .integer i => "integer " ++ backquoted (Decimal.intText i)
  | .real x => "floating point " ++ backquoted (realLayout.text x)
  | .string s => "string " ++ Text.quote s
  | .sequence => "sequence"
  | .map => "map"

/-- How a message names what was expected. -/
def Expected.text : Expected → String
  | .offset => "usize"
  | .byte => "u8"
  | .counter => "u64"
  | .string => "a string"
  | .boolean => "a boolean"
  | .sequence => "a sequence"
  | .unit => "unit"
  | .record name => "struct " ++ name
  | .pair what => what ++ " as an array of 2 elements"

/-- The wording of a fault. -/
def Fault.message : Fault → String
  | .endInValue => "EOF while parsing a value"
  | .endInList => "EOF while parsing a list"
  | .endInObject => "EOF while parsing an object"
  | .endInString => "EOF while parsing a string"
  | .expectedValue => "expected value"
  | .expectedWord => "expected ident"
  | .expectedColon => "expected " ++ backquoted ":"
  | .expectedListEnd => "expected " ++ backquoted "," ++ " or " ++ backquoted "]"
  | .expectedObjectEnd => "expected " ++ backquoted "," ++ " or " ++ backquoted "\x7d"
  | .keyNotString => "key must be a string"
  | .trailingComma => "trailing comma"
  | .trailingCharacters => "trailing characters"
  | .controlCharacter => "control character (\\u0000-\\u001F) found while parsing a string"
  | .invalidEscape => "invalid escape"
  | .loneSurrogate => "lone leading surrogate in hex escape"
  | .unpairedEscape => "unexpected end of hex escape"
  | .invalidUnicode => "invalid unicode code point"
  | .invalidNumber => "invalid number"
  | .numberOutOfRange => "number out of range"
  | .nestedTooDeep => "recursion limit exceeded"
  | .invalidType found expected =>
    "invalid type: " ++ found.text ++ ", expected " ++ expected.text
  | .invalidValue i expected =>
    "invalid value: " ++ (Unexpected.integer i).text ++ ", expected " ++ expected.text
  | .tooShort index record fields =>
    "invalid length " ++ Decimal.text index ++ ", expected struct " ++ record ++ " with " ++
      Decimal.text fields ++ (if fields = 1 then " element" else " elements")
  | .tooLong length =>
    "invalid length " ++ Decimal.text length ++ ", expected fewer elements in array"
  | .missingField name => "missing field " ++ backquoted name
  | .duplicateField name => "duplicate field " ++ backquoted name
  | .unknownVariant name allowed =>
    "unknown variant " ++ backquoted name ++ ", expected one of " ++
      String.intercalate ", " (allowed.map backquoted)
  | .refused reason => reason

end EngineHost.Json
