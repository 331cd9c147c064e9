import EngineHost.Json.Record
import Mathlib.Data.List.Basic
import Mathlib.Tactic.MkIffOfInductiveProp

/-!
# Drafts of records

The fields of a record answer to different names, and each of them is kept in a part of the draft
of its own. What is known about fields that are left out, given twice, or given in another order
follows from this alone.
-/

namespace EngineHost.Json

variable {ν α β δ : Type}

/-- What a function makes of a result that is no error. -/
theorem map_eq_ok_iff {ε : Type} {x : Except ε α} {f : α → β} {b : β} :
    x.map f = .ok b ↔ ∃ a, x = .ok a ∧ f a = b := by
  cases x <;> simp [Except.map]

namespace Field

/-- The names of a field in objects, of which messages use the first. -/
def names (field : Field ν δ) : List String := field.name :: field.otherName.toList

/-- A field answers to its names and to nothing else. -/
theorem answers_iff {field : Field ν δ} {key : String} :
    field.answers key = true ↔ key ∈ field.names := by
  simp [answers, names]

/-- A field is open as long as the draft holds nothing of it. -/
theorem filled_eq_false_iff {field : Field ν δ} {d : δ} :
    field.filled d = false ↔ field.get d = none := by
  rw [filled, Option.isSome_eq_false_iff, Option.isNone_iff_eq_none]

/-- Filling a field puts what its reader returns into the draft. -/
theorem fill_eq_ok_iff {field : Field ν δ} {v : ν} {d d' : δ} :
    field.fill v d = .ok d' ↔ ∃ x, field.read v = .ok x ∧ field.put x d = d' :=
  map_eq_ok_iff

/-- Two fields that have different names and are kept in different parts of the draft. -/
@[mk_iff]
structure Apart (field other : Field ν δ) : Prop where
  names : ∀ name ∈ field.names, name ∉ other.names
  put_put : ∀ x y d, other.put y (field.put x d) = field.put x (other.put y d)
  get_put : ∀ x d, other.get (field.put x d) = other.get d
  put_get : ∀ y d, field.get (other.put y d) = field.get d

/-- Fields are apart from each other both ways. -/
theorem Apart.symm {field other : Field ν δ} (hapart : field.Apart other) : other.Apart field where
  names name hother hfield := hapart.names name hfield hother
  put_put x y d := (hapart.put_put y x d).symm
  get_put := hapart.put_get
  put_get := hapart.get_put

end Field

namespace Record

/-- Every field of the record has names and a part of the draft of its own. -/
structure LaidOut (record : Record ν δ α) : Prop where
  /-- No field has to do with another. -/
  apart : record.fields.Pairwise Field.Apart
  /-- The draft holds what was put into it last. -/
  get_put : ∀ field ∈ record.fields, ∀ x d, field.get (field.put x d) = some x
  /-- In the beginning the draft holds nothing. -/
  blank : ∀ field ∈ record.fields, field.get record.blank = none

namespace LaidOut

variable {record : Record ν δ α} (hlaid : record.LaidOut)
include hlaid

/-- The fields at two places are apart. -/
theorem apart_of_ne {i j : Nat} {field other : Field ν δ} (hi : record.fields[i]? = some field)
    (hj : record.fields[j]? = some other) (hne : i ≠ j) : field.Apart other := by
  obtain ⟨hilt, rfl⟩ := List.getElem?_eq_some_iff.mp hi
  obtain ⟨hjlt, rfl⟩ := List.getElem?_eq_some_iff.mp hj
  have hapart := List.pairwise_iff_getElem.mp hlaid.apart
  rcases Nat.lt_or_gt_of_ne hne with hlt | hgt
  · exact hapart i j hilt hjlt hlt
  · exact (hapart j i hjlt hilt hgt).symm

/-- A key is for the field among whose names it is. -/
theorem findIdx?_of_mem_names {place : Nat} {field : Field ν δ}
    (hplace : record.fields[place]? = some field) {key : String} (hkey : key ∈ field.names) :
    record.fields.findIdx? (·.answers key) = some place := by
  obtain ⟨hlt, hfield⟩ := List.getElem?_eq_some_iff.mp hplace
  rw [List.findIdx?_eq_some_iff_getElem]
  refine ⟨hlt, by rw [hfield]; exact Field.answers_iff.mpr hkey, fun j hj hanswers => ?_⟩
  have hother := List.getElem?_eq_getElem (l := record.fields) (Nat.lt_trans hj hlt)
  have hapart := hlaid.apart_of_ne hother hplace (Nat.ne_of_lt hj)
  exact hapart.names key (Field.answers_iff.mp hanswers) hkey

/-- What the draft holds of a field after one was filled, it held before, unless it was this field
that was filled. -/
theorem get_of_fill {i place : Nat} {field other : Field ν δ}
    (hi : record.fields[i]? = some other) (hplace : record.fields[place]? = some field) {v : ν}
    {d d' : δ} (hfill : other.fill v d = .ok d') :
    field.get d' = field.get d ∨
      i = place ∧ ∃ x, field.read v = .ok x ∧ field.get d' = some x := by
  by_cases hne : i = place
  · subst hne
    obtain rfl : other = field := Option.some.inj (hi.symm.trans hplace)
    obtain ⟨x, hread, rfl⟩ := Field.fill_eq_ok_iff.mp hfill
    exact .inr ⟨rfl, x, hread, hlaid.get_put other (List.mem_of_getElem? hi) x d⟩
  · obtain ⟨x, -, rfl⟩ := Field.fill_eq_ok_iff.mp hfill
    exact .inl ((hlaid.apart_of_ne hi hplace hne).get_put x d)

/-- A field that has been read is filled. -/
theorem filled_of_fill {field : Field ν δ} (hfield : field ∈ record.fields) {v : ν} {d d' : δ}
    (hfill : field.fill v d = .ok d') : field.filled d' = true := by
  obtain ⟨x, -, rfl⟩ := Field.fill_eq_ok_iff.mp hfill
  rw [Field.filled, hlaid.get_put field hfield, Option.isSome_some]

/-- No field is emptied. -/
theorem filled_of_filled {field other : Field ν δ} (hfield : field ∈ record.fields)
    (hother : other ∈ record.fields) {v : ν} {d d' : δ} (hfill : other.fill v d = .ok d')
    (hfilled : field.filled d = true) : field.filled d' = true := by
  obtain ⟨place, hplace⟩ := List.mem_iff_getElem?.mp hfield
  obtain ⟨i, hi⟩ := List.mem_iff_getElem?.mp hother
  rcases hlaid.get_of_fill hi hplace hfill with hsame | ⟨-, x, -, hx⟩
  · rwa [Field.filled, hsame]
  · rw [Field.filled, hx, Option.isSome_some]

end LaidOut

/-- The field that answers first to a key. -/
theorem find?_of_findIdx? {fields : List (Field ν δ)} {key : String} {place : Nat}
    {field : Field ν δ} (hindex : fields.findIdx? (·.answers key) = some place)
    (hfield : fields[place]? = some field) : fields.find? (·.answers key) = some field := by
  obtain ⟨hlt, hanswers, hbefore⟩ := List.findIdx?_eq_some_iff_getElem.mp hindex
  obtain ⟨_, rfl⟩ := List.getElem?_eq_some_iff.mp hfield
  rw [List.find?_eq_some_iff_getElem]
  refine ⟨hanswers, place, hlt, rfl, fun j hj => ?_⟩
  simpa using hbefore j hj

/-- A key is for the field among whose names it is. -/
theorem LaidOut.find?_of_mem_names {record : Record ν δ α} (hlaid : record.LaidOut)
    {field : Field ν δ} (hfield : field ∈ record.fields) {key : String} (hkey : key ∈ field.names) :
    record.fields.find? (·.answers key) = some field := by
  obtain ⟨place, hplace⟩ := List.mem_iff_getElem?.mp hfield
  exact find?_of_findIdx? (hlaid.findIdx?_of_mem_names hplace hkey) hplace

end Record

end EngineHost.Json
