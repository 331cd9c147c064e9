import EngineHost.Json.View

/-!
# Records

A record is read from an object by the names of its fields, in any order, or from an array by
their positions. What has been read so far is kept in a draft, out of which the record is built at
the end.
-/

namespace EngineHost.Json

/-- A field of a record with drafts `δ`, read from values of the form `ν`. -/
structure Field (ν δ : Type) where
  /-- The name in messages and in objects. -/
  name : String
  /-- A second name in objects. -/
  otherName : Option String := none
  /-- The field may be left out. -/
  optional : Bool := false
  /-- What the field holds. -/
  {Content : Type}
  /-- Reads the field. -/
  read : ν → Except Fault Content
  /-- Puts what was read into the draft. -/
  put : Content → δ → δ
  /-- What the draft holds of the field. -/
  get : δ → Option Content

/-- A record built from drafts `δ`. -/
structure Record (ν δ α : Type) where
  /-- The name in messages. -/
  name : String
  /-- The fields in their order. -/
  fields : List (Field ν δ)
  /-- The draft before any field is read. -/
  blank : δ
  /-- The record of a draft, or the fault of a field that is missing. -/
  build : δ → Except Fault α

/-- Whether the draft holds the field. -/
def Field.filled {ν δ : Type} (field : Field ν δ) (draft : δ) : Bool :=
  (field.get draft).isSome

/-- Reads the field into the draft. -/
def Field.fill {ν δ : Type} (field : Field ν δ) (v : ν) (draft : δ) : Except Fault δ :=
  (field.read v).map fun x => field.put x draft

/-- Whether the key of a member names a field. -/
def Field.answers {ν δ : Type} (field : Field ν δ) (key : String) : Bool :=
  key = field.name || field.otherName = some key

/-- A field of the draft that the record cannot do without. -/
def require {α : Type} (name : String) : Option α → Except Fault α
  | some a => .ok a
  | none => .error (.missingField name)

namespace Record

variable {ν δ α : Type}

/-- Reads the members of an object into a draft. A member that no field answers to is checked and
left out, and a field is never read twice. -/
def fillMembers [Source ν] (fields : List (Field ν δ)) :
    List (Except Fault String × ν) → δ → Except Fault δ
  | [], draft => .ok draft
  | (.error f, _) :: _, _ => .error f
  | (.ok key, value) :: rest, draft =>
    match fields.find? (·.answers key) with
    | none =>
      match Source.check value with
      | .error f => .error f
      | .ok () => fillMembers fields rest draft
    | some field =>
      if field.filled draft then .error (.duplicateField field.name)
      else
        match field.fill value draft with
        | .error f => .error f
        | .ok longer => fillMembers fields rest longer

/-- Reads the items of an array into a draft, field by field; `missing` gives the fault of a field
whose place lies behind the end. -/
def fillItems (missing : Nat → Fault) (next? : Option Fault) :
    Nat → List (Field ν δ) → List ν → δ → Except Fault δ
  | _, [], _, draft => .ok draft
  | index, field :: fields, item :: rest, draft =>
    match field.fill item draft with
    | .error f => .error f
    | .ok longer => fillItems missing next? (index + 1) fields rest longer
  | index, field :: fields, [], draft =>
    match next? with
    | some f => .error f
    | none =>
      if field.optional then fillItems missing next? (index + 1) fields [] draft
      else .error (missing index)

/-- Reads a record. -/
def read [Source ν] (record : Record ν δ α) (v : ν) : Except Fault α :=
  match Source.view v with
  | .error f => .error f
  | .ok (.array items next? enough?) =>
    let missing := fun index => Fault.tooShort index record.name record.fields.length
    match fillItems missing next? 0 record.fields items record.blank with
    | .error f => .error f
    | .ok draft =>
      match enough? (min items.length record.fields.length) with
      | some f => .error f
      | none => record.build draft
  | .ok (.object members next?) =>
    match fillMembers record.fields members record.blank with
    | .error f => .error f
    | .ok draft =>
      match next? with
      | some f => .error f
      | none => record.build draft
  | .ok other => .error (.invalidType other.unexpected (.record record.name))

end Record

end EngineHost.Json
