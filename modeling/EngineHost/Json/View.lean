import EngineHost.Json.Value

/-!
# Reading typed values

Typed readers work alike on the nodes of a document and on untyped values. Both show a reader the
same view: scalars are read completely, while arrays and objects are not entered before the reader
asks for their parts.
-/

namespace EngineHost.Json

/-- What a reader sees of a value. -/
inductive View (ν : Type) where
  | null
  | boolean (b : Bool)
  | number (n : Number)
  | string (s : String)
  /-- The items; the fault met when one more is asked for; and the fault met when only so many are
  wanted. -/
  | array (items : List ν) (next? : Option Fault) (enough? : Nat → Option Fault)
  /-- The members; and the fault met when one more is asked for. -/
  | object (members : List (Except Fault String × ν)) (next? : Option Fault)

/-- A form of values that typed readers can read. -/
class Source (ν : Type) where
  /-- What a reader sees of a value. -/
  view : ν → Except Fault (View ν)
  /-- Whether a value is `null`. Only what starts like `null` is looked at further. -/
  isNull : ν → Except Fault Bool
  /-- The check of a value that nobody reads. -/
  check : ν → Except Fault Unit

/-- What a reader sees of a node. -/
def Node.view : Node → Except Fault (View Node)
  | .null => .ok .null
  | .boolean b => .ok (.boolean b)
  | .numeral n => n.number.map .number
  | .quoted q => q.text.map .string
  | .array items ending =>
    .ok (.array items ending.next? fun count =>
      if count < items.length then some .trailingCharacters else ending.enough?)
  | .object members ending =>
    .ok (.object (members.map fun (key, value) => (key.text, value)) ending.next?)
  | .broken b => .error b.fault

/-- Whether a node is `null`. -/
def Node.isNull : Node → Except Fault Bool
  | .null => .ok true
  | .broken (.wrongWord .null) => .error .expectedWord
  | .broken (.cutWord .null) => .error .endInValue
  | _ => .ok false

instance : Source Node := ⟨Node.view, Node.isNull, Node.check⟩

/-- What a reader sees of a value. -/
def Value.view : Value → View Value
  | .null => .null
  | .boolean b => .boolean b
  | .number n => .number n
  | .string s => .string s
  | .array items =>
    .array items none fun count =>
      if count < items.length then some (.tooLong items.length) else none
  | .object members => .object (members.map fun (key, value) => (.ok key, value)) none

/-- Whether a value is `null`. -/
def Value.isNull : Value → Bool
  | .null => true
  | _ => false

instance : Source Value := ⟨fun v => .ok v.view, fun v => .ok v.isNull, fun _ => .ok ()⟩

/-- How a message names what a reader sees. -/
def View.unexpected {ν : Type} : View ν → Unexpected
  | .null => .null
  | .boolean b => .boolean b
  | .number n => n.unexpected
  | .string s => .string s
  | .array .. => .sequence
  | .object .. => .map

namespace Read

variable {ν α β : Type} [Source ν]

/-- A natural number below `bound`. -/
def natural (bound : Nat) (expected : Expected) (v : ν) : Except Fault Nat :=
  match Source.view v with
  | .error f => .error f
  | .ok (.number (.integer i)) =>
    if 0 ≤ i ∧ i < bound then .ok i.toNat else .error (.invalidValue i expected)
  | .ok other => .error (.invalidType other.unexpected expected)

/-- A byte offset. -/
def offset (v : ν) : Except Fault UInt64 :=
  (natural 0x10000000000000000 .offset v).map Nat.toUInt64

/-- A counter. -/
def counter (v : ν) : Except Fault UInt64 :=
  (natural 0x10000000000000000 .counter v).map Nat.toUInt64

/-- A text. -/
def string (v : ν) : Except Fault String :=
  match Source.view v with
  | .error f => .error f
  | .ok (.string s) => .ok s
  | .ok other => .error (.invalidType other.unexpected .string)

/-- A truth value. -/
def boolean (v : ν) : Except Fault Bool :=
  match Source.view v with
  | .error f => .error f
  | .ok (.boolean b) => .ok b
  | .ok other => .error (.invalidType other.unexpected .boolean)

/-- The value `null`. -/
def unit (v : ν) : Except Fault Unit :=
  match Source.view v with
  | .error f => .error f
  | .ok .null => .ok ()
  | .ok other => .error (.invalidType other.unexpected .unit)

/-- A value that may be `null`. -/
def optional (item : ν → Except Fault α) (v : ν) : Except Fault (Option α) :=
  match Source.isNull v with
  | .error f => .error f
  | .ok true => .ok none
  | .ok false => (item v).map some

/-- The items of an array, each read in its turn, and then the array's end. -/
def items (item : ν → Except Fault α) (next? : Option Fault) : List ν → Except Fault (List α)
  | [] =>
    match next? with
    | some f => .error f
    | none => .ok []
  | v :: rest =>
    match item v with
    | .error f => .error f
    | .ok a => (items item next? rest).map (a :: ·)

/-- An array of values of one kind. -/
def list (item : ν → Except Fault α) (v : ν) : Except Fault (List α) :=
  match Source.view v with
  | .error f => .error f
  | .ok (.array vs next? _) => items item next? vs
  | .ok other => .error (.invalidType other.unexpected .sequence)

/-- The fault of a pair that has another number of items. -/
def pairFault (what : String) (count : Nat) : Fault :=
  .refused (what ++ ": expected array of 2 elements, got " ++ Decimal.text count)

/-- Two values in an array. Surplus items are checked and counted before they are refused. -/
def pair (what : String) (first : ν → Except Fault α) (second : ν → Except Fault β) (v : ν) :
    Except Fault (α × β) :=
  match Source.view v with
  | .error f => .error f
  | .ok (.array [] next? _) => .error (next?.getD (pairFault what 0))
  | .ok (.array (x :: rest) next? _) =>
    match first x, rest with
    | .error f, _ => .error f
    | .ok _, [] => .error (next?.getD (pairFault what 1))
    | .ok a, y :: surplus =>
      match second y with
      | .error f => .error f
      | .ok b =>
        match items Source.check next? surplus with
        | .error f => .error f
        | .ok [] => .ok (a, b)
        | .ok (_ :: more) => .error (pairFault what (3 + more.length))
  | .ok other => .error (.invalidType other.unexpected (.pair what))

end Read

end EngineHost.Json
