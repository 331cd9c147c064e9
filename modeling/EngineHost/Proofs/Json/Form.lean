import EngineHost.Json.Record
import EngineHost.Proofs.Json.Spelling
import Mathlib.Data.List.Forall2

/-!
# Forms

A form says which JSON values stand for a piece of data. It leaves open what does not matter to
readers: the spelling of strings, the order of members, and members that no reader asks for. Forms
are stated for every kind of value that has shapes, so that one form serves for the nodes of a
document and for untyped values.
-/

namespace EngineHost.Json

/-- What a value is, whatever its spelling. -/
inductive Shape (ν : Type) where
  | null
  | boolean (b : Bool)
  | natural (n : Nat)
  | text (s : String)
  | array (items : List ν)
  | object (members : List (String × ν))

namespace Shape

variable {ν : Type}

/-- What a reader sees of a value of this shape. The fault of a reader that wants fewer items than
there are is up to the kind of value. -/
def view (enough? : Nat → Option Fault) : Shape ν → View ν
  | null => .null
  | boolean b => .boolean b
  | natural n => .number (.integer n)
  | text s => .string s
  | array items => .array items none enough?
  | object members => .object (members.map fun m => (.ok m.1, m.2)) none

/-- Whether this is the shape of `null`. -/
def isNull : Shape ν → Bool
  | null => true
  | _ => false

end Shape

/-- A kind of values that have shapes, which readers see. -/
class Shaped (ν : Type) [Source ν] where
  /-- The value has this shape. -/
  Shows : ν → Shape ν → Prop
  view_of_shows {v : ν} {shape : Shape ν} (hshows : Shows v shape) :
    ∃ enough?, Source.view v = .ok (shape.view enough?)
  isNull_of_shows {v : ν} {shape : Shape ν} (hshows : Shows v shape) :
    Source.isNull v = .ok shape.isNull

/-- A member of an object in a document, and its key and value. -/
def MemberSpelled (m : String × Node) (q : Quoted × Node) : Prop :=
  q.1.ending = .closed ∧ Spelled m.1.toList q.1.pieces ∧ q.2 = m.2

/-- The shape of a node. Numbers are written in plain digits. -/
inductive Node.Shows : Node → Shape Node → Prop where
  | null : Shows .null .null
  | boolean (b : Bool) : Shows (.boolean b) (.boolean b)
  | natural {n : Nat} (hn : n < 0x10000000000000000) :
    Shows (.numeral { whole := Decimal.digits n }) (.natural n)
  | text {s : String} {ps : List Piece} (hs : Spelled s.toList ps) :
    Shows (.quoted ⟨ps, .closed⟩) (.text s)
  | array (items : List Node) : Shows (.array items .closed) (.array items)
  | object {members : List (String × Node)} {qs : List (Quoted × Node)}
    (hmembers : List.Forall₂ MemberSpelled members qs) :
    Shows (.object qs .closed) (.object members)

/-- Plain digits are read as their number. -/
theorem Numeral.number_digits {n : Nat} (hn : n < 0x10000000000000000) :
    Numeral.number { whole := Decimal.digits n } = .ok (.integer n) := by
  rw [Numeral.number, Decimal.value_digits]
  exact if_pos ⟨rfl, rfl, rfl, hn⟩

/-- Members that are spelled have their keys as texts. -/
theorem Node.texts_of_spelled {members : List (String × Node)} {qs : List (Quoted × Node)}
    (hmembers : List.Forall₂ MemberSpelled members qs) :
    (qs.map fun (key, value) => (key.text, value)) = members.map fun m => (.ok m.1, m.2) := by
  induction hmembers with
  | nil => rfl
  | @cons m q members qs hm _ ih =>
    obtain ⟨⟨ps, ending⟩, value⟩ := q
    obtain ⟨rfl, hkey, rfl⟩ := hm
    rw [List.map_cons, List.map_cons, ih]
    simp [Quoted.text_of_spelled hkey]

instance : Shaped Node where
  Shows := Node.Shows
  view_of_shows {v shape} hshows := by
    cases hshows with
    | null => exact ⟨fun _ => none, rfl⟩
    | boolean b => exact ⟨fun _ => none, rfl⟩
    | natural hn =>
      refine ⟨fun _ => none, ?_⟩
      change (Numeral.number _).map View.number = _
      rw [Numeral.number_digits hn]
      rfl
    | text hs =>
      refine ⟨fun _ => none, ?_⟩
      change (Quoted.text _).map View.string = _
      rw [Quoted.text_of_spelled hs]
      rfl
    | array items => exact ⟨_, rfl⟩
    | object hmembers =>
      refine ⟨fun _ => none, ?_⟩
      change Except.ok (View.object _ _) = _
      rw [Node.texts_of_spelled hmembers]
      rfl
  isNull_of_shows {v shape} hshows := by cases hshows <;> rfl

/-- The shape of an untyped value. -/
inductive Value.Shows : Value → Shape Value → Prop where
  | null : Shows .null .null
  | boolean (b : Bool) : Shows (.boolean b) (.boolean b)
  | natural (n : Nat) : Shows (.number (.integer n)) (.natural n)
  | text (s : String) : Shows (.string s) (.text s)
  | array (items : List Value) : Shows (.array items) (.array items)
  | object (members : List (String × Value)) : Shows (.object members) (.object members)

instance : Shaped Value where
  Shows := Value.Shows
  view_of_shows {v shape} hshows := by
    cases hshows with
    | array items => exact ⟨_, rfl⟩
    | null | boolean _ | natural _ | text _ | object _ => exact ⟨fun _ => none, rfl⟩
  isNull_of_shows {v shape} hshows := by cases hshows <;> rfl

/-- Which values of the kind `ν` stand for data of the type `α`. -/
abbrev Form (ν α : Type) := α → ν → Prop

namespace Form

variable {ν α β : Type} [Source ν] [Shaped ν]

/-- A number of 64 bits. -/
def offset : Form ν UInt64 := fun n v => Shaped.Shows v (.natural n.toNat)

/-- A truth value. -/
def boolean : Form ν Bool := fun b v => Shaped.Shows v (.boolean b)

/-- A text. -/
def text : Form ν String := fun s v => Shaped.Shows v (.text s)

/-- Data that may be missing: `null` then. -/
def option (item : Form ν α) : Form ν (Option α)
  | none => fun v => Shaped.Shows v .null
  | some a => item a

/-- A list, as an array. -/
def list (item : Form ν α) : Form ν (List α) := fun as v =>
  ∃ vs, Shaped.Shows v (.array vs) ∧ List.Forall₂ item as vs

/-- A pair, as an array. -/
def pair (first : Form ν α) (second : Form ν β) : Form ν (α × β) := fun p v =>
  ∃ x y, Shaped.Shows v (.array [x, y]) ∧ first p.1 x ∧ second p.2 y

end Form

/-- A part of a record. -/
structure RecordPart (ν : Type) where
  /-- The names that its member may have. -/
  names : List String
  /-- The values that its member may have. -/
  form : ν → Prop
  /-- Its member may be left out. -/
  omissible : Prop := False

/-- The members describe a record with these parts, in any order. A member whose name belongs to no
part has an extra value. -/
structure Describes {ν : Type} (parts : List (RecordPart ν)) (extra : ν → Prop)
    (members : List (String × ν)) : Prop where
  /-- A member is a part or an extra. -/
  member : ∀ m ∈ members, (∃ part ∈ parts, m.1 ∈ part.names ∧ part.form m.2) ∨
    ((∀ part ∈ parts, m.1 ∉ part.names) ∧ extra m.2)
  /-- No part has two members. -/
  once : members.Pairwise fun m m' => ∀ part ∈ parts, m.1 ∈ part.names → m'.1 ∉ part.names
  /-- Every part has a member unless it may be left out. -/
  complete : ∀ part ∈ parts, part.omissible ∨ ∃ m ∈ members, m.1 ∈ part.names

/-- A record, as an object whose members describe it. -/
def Form.record {ν α : Type} [Source ν] [Shaped ν] (parts : α → List (RecordPart ν))
    (extra : ν → Prop) : Form ν α := fun a v =>
  ∃ members, Shaped.Shows v (.object members) ∧ Describes (parts a) extra members

end EngineHost.Json
