import EngineHost.Json.Numeral
import EngineHost.Json.Quoted

/-!
# JSON documents

A JSON text is first turned into a tree that records its structure up to the first place where it
stops being JSON, and what is wrong there. Reading the tree from left to right then meets every
fault at its place in the text, whether it lies in the text itself or in what a reader makes of it.
-/

namespace EngineHost.Json

/-- A value that is written as a word. -/
inductive Atom where
  | null
  | yes
  | no
  deriving DecidableEq, Repr

/-- Where a text breaks off inside, or in place of, a value. -/
inductive Break where
  /-- The text ends where a value should start. -/
  | noText
  /-- A byte that starts no value. -/
  | noValue
  /-- A wrong letter in the word of an atom. -/
  | wrongWord (atom : Atom)
  /-- The text ends inside the word of an atom. -/
  | cutWord (atom : Atom)
  /-- A number lacks a digit, or has one after a leading zero. -/
  | wrongNumeral
  /-- The text ends where a number needs a digit. -/
  | cutNumeral
  /-- A key is not followed by a colon. -/
  | noColon
  /-- The text ends after a key. -/
  | cutMember
  deriving DecidableEq, Repr

/-- The fault that a reader of the value meets. -/
def Break.fault : Break → Fault
  | .noText => .endInValue
  | .noValue => .expectedValue
  | .wrongWord _ => .expectedWord
  | .cutWord _ => .endInValue
  | .wrongNumeral => .invalidNumber
  | .cutNumeral => .endInValue
  | .noColon => .expectedColon
  | .cutMember => .endInObject

/-- The fault where nobody reads the value. -/
def Break.uncheckedFault : Break → Fault
  | .cutNumeral => .invalidNumber
  | b => b.fault

/-- Whether at least one byte of a value was there. -/
def Break.started : Break → Bool
  | .noValue | .wrongWord _ | .cutWord _ | .wrongNumeral | .cutNumeral => true
  | .noText | .noColon | .cutMember => false

/-- What follows the last item of an array. -/
inductive ArrayEnd where
  /-- The closing bracket. -/
  | closed
  /-- The end of the text, or the last item is itself broken. -/
  | unfinished
  /-- Neither a comma nor the closing bracket. -/
  | noSeparator
  /-- A comma and then the closing bracket. -/
  | commaClosed
  deriving DecidableEq, Repr

/-- What follows the last member of an object. -/
inductive ObjectEnd where
  /-- The closing brace. -/
  | closed
  /-- The end of the text, or the last member is itself broken. -/
  | unfinished
  /-- Neither a comma nor the closing brace. -/
  | noSeparator
  /-- Something other than a string where a key should start. -/
  | noKey
  /-- A comma and then the closing brace. -/
  | commaClosed
  /-- A comma and then the end of the text. -/
  | commaUnfinished
  deriving DecidableEq, Repr

/-- A JSON text as a tree. -/
inductive Node where
  | null
  | boolean (b : Bool)
  | numeral (n : Numeral)
  | quoted (q : Quoted)
  | array (items : List Node) (ending : ArrayEnd)
  | object (members : List (Quoted × Node)) (ending : ObjectEnd)
  | broken (b : Break)

/-- The node of an atom. -/
def Atom.node : Atom → Node
  | .null => .null
  | .yes => .boolean true
  | .no => .boolean false

/-- A JSON text: its value, and whether anything but blanks follows it. -/
structure Document where
  /-- The outermost value. -/
  root : Node
  /-- Something follows the value. -/
  trailing : Bool

/-- The fault met when one more item is asked for. -/
def ArrayEnd.next? : ArrayEnd → Option Fault
  | .closed => none
  | .unfinished => some .endInList
  | .noSeparator => some .expectedListEnd
  | .commaClosed => some .trailingComma

/-- The fault met when no more items are wanted. -/
def ArrayEnd.enough? : ArrayEnd → Option Fault
  | .closed => none
  | .unfinished => some .endInList
  | .noSeparator => some .trailingCharacters
  | .commaClosed => some .trailingComma

/-- The fault met where nobody reads the array. -/
def ArrayEnd.unchecked? : ArrayEnd → Option Fault
  | .closed => none
  | .unfinished => some .endInList
  | .noSeparator => some .expectedListEnd
  | .commaClosed => some .expectedValue

/-- The fault met when one more member is asked for. -/
def ObjectEnd.next? : ObjectEnd → Option Fault
  | .closed => none
  | .unfinished => some .endInObject
  | .noSeparator => some .expectedObjectEnd
  | .noKey => some .keyNotString
  | .commaClosed => some .trailingComma
  | .commaUnfinished => some .endInValue

/-- The fault met where nobody reads the object. -/
def ObjectEnd.unchecked? : ObjectEnd → Option Fault
  | .closed => none
  | .unfinished => some .endInObject
  | .noSeparator => some .expectedObjectEnd
  | .noKey => some .keyNotString
  | .commaClosed => some .keyNotString
  | .commaUnfinished => some .endInObject

/-- Raises a fault if there is one. -/
def raise? : Option Fault → Except Fault Unit
  | none => .ok ()
  | some f => .error f

mutual

/-- The check of a value that nobody reads. Strings only have to close, numbers only have to be
written properly, and nesting has no limit. -/
def Node.check : Node → Except Fault Unit
  | .null => .ok ()
  | .boolean _ => .ok ()
  | .numeral _ => .ok ()
  | .quoted q => q.check
  | .array items ending => Node.checkItems ending items
  | .object members ending => Node.checkMembers ending members
  | .broken b => .error b.uncheckedFault

/-- The check of the items of an array that nobody reads. -/
def Node.checkItems (ending : ArrayEnd) : List Node → Except Fault Unit
  | [] => raise? ending.unchecked?
  | item :: rest =>
    match item.check with
    | .error f => .error f
    | .ok () => Node.checkItems ending rest

/-- The check of the members of an object that nobody reads. -/
def Node.checkMembers (ending : ObjectEnd) : List (Quoted × Node) → Except Fault Unit
  | [] => raise? ending.unchecked?
  | (key, value) :: rest =>
    match key.check with
    | .error f => .error f
    | .ok () =>
      match value.check with
      | .error f => .error f
      | .ok () => Node.checkMembers ending rest

end

end EngineHost.Json
