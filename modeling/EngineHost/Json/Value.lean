import EngineHost.Json.Node

/-!
# Untyped values

JSON values without their spelling. Reading a value from a document is strict: texts are checked,
numbers have to be in range, and nesting is limited. In an object the members stand in the order of
their keys, and of members with one key the last is kept.
-/

namespace EngineHost.Json

/-- A JSON value. -/
inductive Value where
  | null
  | boolean (b : Bool)
  | number (n : Number)
  | string (s : String)
  | array (items : List Value)
  | object (members : List (String × Value))

/-- The members after one is put in its place in the order of keys. -/
def putMember (key : String) (value : Value) : List (String × Value) → List (String × Value)
  | [] => [(key, value)]
  | (k, v) :: rest =>
    if key < k then (key, value) :: (k, v) :: rest
    else if key = k then (key, value) :: rest
    else (k, v) :: putMember key value rest

/-- How many arrays and objects may be open at once. -/
def nestingLimit : Nat := 127

mutual

/-- The value of a node in which `room` more levels of nesting may be opened. -/
def Node.value (room : Nat) : Node → Except Fault Value
  | .null => .ok .null
  | .boolean b => .ok (.boolean b)
  | .numeral n => n.number.map .number
  | .quoted q => q.text.map .string
  | .array items ending =>
    match room with
    | 0 => .error .nestedTooDeep
    | room + 1 => (Node.itemValues room ending items).map .array
  | .object members ending =>
    match room with
    | 0 => .error .nestedTooDeep
    | room + 1 => (Node.memberValues room ending [] members).map .object
  | .broken b => .error b.fault

/-- The values of the items of an array. -/
def Node.itemValues (room : Nat) (ending : ArrayEnd) : List Node → Except Fault (List Value)
  | [] =>
    match ending.next? with
    | some f => .error f
    | none => .ok []
  | item :: rest =>
    match item.value room with
    | .error f => .error f
    | .ok v => (Node.itemValues room ending rest).map (v :: ·)

/-- The members of an object after the members `done`. -/
def Node.memberValues (room : Nat) (ending : ObjectEnd) (done : List (String × Value)) :
    List (Quoted × Node) → Except Fault (List (String × Value))
  | [] =>
    match ending.next? with
    | some f => .error f
    | none => .ok done
  | (key, value) :: rest =>
    match key.text with
    | .error f => .error f
    | .ok k =>
      match value.value room with
      | .error f => .error f
      | .ok v => Node.memberValues room ending (putMember k v done) rest

end

end EngineHost.Json
