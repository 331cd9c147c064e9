import EngineHost.Proofs.Json.Embedding
import EngineHost.Proofs.Json.Focus
import Mathlib.Data.String.Basic

/-!
# Repeated keys

A record refuses a second key for a field as soon as it meets the key. An untyped object takes any
number of members with one key and keeps the last, so that the others may be left out if they can
be read at all.
-/

namespace EngineHost.Json

/-! ### In records -/

namespace Record

variable {δ α : Type}

/-- What the first of some members does to the draft. -/
theorem exists_of_fillMembers_cons {fields : List (Field Node δ)} {m : Quoted × Node}
    {rest : List (Quoted × Node)} {d d' : δ}
    (hfill : fillMembers fields (seenMembers (m :: rest)) d = .ok d') :
    ∃ key d₁, m.1.text = .ok key ∧ fillMembers fields (seenMembers rest) d₁ = .ok d' ∧
      ((fields.find? (·.answers key) = none ∧ d₁ = d) ∨
        ∃ field, fields.find? (·.answers key) = some field ∧ field.fill m.2 d = .ok d₁) := by
  change fillMembers fields ((m.1.text, m.2) :: seenMembers rest) d = .ok d' at hfill
  cases hkey : m.1.text with
  | error f =>
    rw [hkey] at hfill
    cases hfill
  | ok key =>
    rw [hkey, fillMembers] at hfill
    split at hfill
    case h_1 hfind =>
      split at hfill
      case h_1 => cases hfill
      case h_2 => exact ⟨key, d, rfl, hfill, .inl ⟨hfind, rfl⟩⟩
    case h_2 field hfind =>
      split at hfill
      case isTrue => cases hfill
      case isFalse =>
        split at hfill
        case h_1 => cases hfill
        case h_2 longer hlonger => exact ⟨key, longer, rfl, hfill, .inr ⟨field, hfind, hlonger⟩⟩

namespace LaidOut

variable {record : Record Node δ α} (hlaid : record.LaidOut)
include hlaid

/-- A field stays filled over more members. -/
theorem filled_of_members {field : Field Node δ} (hfield : field ∈ record.fields)
    {members : List (Quoted × Node)} {d d' : δ}
    (hfill : fillMembers record.fields (seenMembers members) d = .ok d')
    (hfilled : field.filled d = true) : field.filled d' = true := by
  induction members generalizing d with
  | nil =>
    cases hfill
    exact hfilled
  | cons m rest ih =>
    obtain ⟨key, d₁, -, hrest, ⟨-, rfl⟩ | ⟨other, hfind, hother⟩⟩ :=
      exists_of_fillMembers_cons hfill
    · exact ih hrest hfilled
    · have hmem := List.mem_of_find?_eq_some hfind
      exact ih hrest (hlaid.filled_of_filled hfield hmem hother hfilled)

/-- The field of a member that has been read is filled. -/
theorem filled_of_mem {field : Field Node δ} {members : List (Quoted × Node)} {d d' : δ}
    (hfill : fillMembers record.fields (seenMembers members) d = .ok d') {m : Quoted × Node}
    (hm : m ∈ members) {key : String} (hkey : m.1.text = .ok key)
    (hfind : record.fields.find? (·.answers key) = some field) : field.filled d' = true := by
  induction members generalizing d with
  | nil => cases hm
  | cons first rest ih =>
    obtain ⟨key', d₁, hkey', hrest, hfirst⟩ := exists_of_fillMembers_cons hfill
    rcases List.mem_cons.mp hm with rfl | hlater
    · obtain rfl : key = key' := Except.ok.inj (hkey.symm.trans hkey')
      rcases hfirst with ⟨hnone, -⟩ | ⟨field', hfind', hfield'⟩
      · rw [hfind] at hnone
        cases hnone
      · obtain rfl : field = field' := Option.some.inj (hfind.symm.trans hfind')
        have hmem := List.mem_of_find?_eq_some hfind
        exact hlaid.filled_of_members hmem hrest (hlaid.filled_of_fill hmem hfield')
    · exact ih hrest hlater

/-- A second key for a field is refused, whatever follows it. -/
theorem read_repeated {field : Field Node δ} (hfield : field ∈ record.fields)
    {front more more' : List (Quoted × Node)} {ending ending' : ObjectEnd} {a : α}
    (hread : record.read (.object (front ++ more) ending) = .ok a) {m : Quoted × Node}
    (hm : m ∈ front) {first : String} (hfirst : first ∈ field.names)
    (hmkey : m.1.text = .ok first) {key : Quoted} {second : String}
    (hsecond : second ∈ field.names) (hkey : key.text = .ok second) (v : Node) :
    record.read (.object (front ++ (key, v) :: more') ending') =
      .error (.duplicateField field.name) := by
  have happend : ∀ rest, seenMembers (front ++ rest) = seenMembers front ++ seenMembers rest :=
    fun _ => List.map_append
  rw [read_object, happend, fillMembers_append] at hread ⊢
  cases hfront : fillMembers record.fields (seenMembers front) record.blank with
  | error f =>
    rw [hfront] at hread
    cases hread
  | ok d =>
    have hfilled := hlaid.filled_of_mem hfront hm hmkey (hlaid.find?_of_mem_names hfield hfirst)
    simp only [Except.bind, seenMembers, List.map_cons, hkey, fillMembers,
      hlaid.find?_of_mem_names hfield hsecond, hfilled, if_true]

end LaidOut

end Record

/-! ### In untyped objects -/

/-- The second of two members with one key replaces the first. -/
theorem putMember_putMember (key : String) (x y : Value) (members : List (String × Value)) :
    putMember key y (putMember key x members) = putMember key y members := by
  induction members with
  | nil => simp [putMember]
  | cons m rest ih =>
    obtain ⟨k, v⟩ := m
    simp only [putMember]
    split
    · simp [putMember]
    · split
      · simp [putMember]
      case isFalse hlt hne => simp [putMember, hlt, hne, ih]

/-- Members with different names, the one before the other, can be put in either order. -/
theorem putMember_comm_of_lt {key key' : String} (hlt : key < key') (x y : Value)
    (members : List (String × Value)) :
    putMember key' y (putMember key x members) = putMember key x (putMember key' y members) := by
  have hne : key' ≠ key := ne_of_gt hlt
  have hle : ¬key' < key := not_lt_of_gt hlt
  induction members with
  | nil => simp only [putMember, hle, hne, if_false, hlt, if_true]
  | cons m rest ih =>
    obtain ⟨k, v⟩ := m
    rcases lt_trichotomy key k with hk | rfl | hk
    · rcases lt_trichotomy key' k with hk' | rfl | hk'
      · simp only [putMember, hk, hk', hle, hne, hlt, if_true, if_false]
      · simp only [putMember, hk, hle, hne, lt_irrefl, if_true, if_false]
      · simp only [putMember, hk, hle, hne, not_lt_of_gt hk', ne_of_gt hk', if_true, if_false]
    · simp only [putMember, lt_irrefl, hle, hne, if_true, if_false]
    · have hk' := hk.trans hlt
      simp only [putMember, not_lt_of_gt hk, ne_of_gt hk, not_lt_of_gt hk', ne_of_gt hk', if_false,
        ih]

/-- Members with different keys may be put in any order. -/
theorem putMember_comm {key key' : String} (hne : key ≠ key') (x y : Value)
    (members : List (String × Value)) :
    putMember key' y (putMember key x members) = putMember key x (putMember key' y members) := by
  rcases lt_or_gt_of_ne hne with hlt | hgt
  · exact putMember_comm_of_lt hlt x y members
  · exact (putMember_comm_of_lt hgt y x members).symm

namespace Node

/-- A member makes no difference if one with the same key follows. -/
theorem memberValues_putMember {room : Nat} {ending : ObjectEnd} {members : List (Quoted × Node)}
    {key : String} {m : Quoted × Node} (hm : m ∈ members) (hkey : m.1.text = .ok key) (x : Value)
    (done : List (String × Value)) :
    memberValues room ending (putMember key x done) members =
      memberValues room ending done members := by
  induction members generalizing done with
  | nil => cases hm
  | cons first rest ih =>
    obtain ⟨q, node⟩ := first
    rw [memberValues, memberValues]
    cases hq : q.text with
    | error f => rfl
    | ok k =>
      cases node.value room with
      | error f => rfl
      | ok y =>
        by_cases hk : key = k
        · subst hk
          simp only [putMember_putMember]
        · rcases List.mem_cons.mp hm with rfl | hlater
          · exact absurd (Except.ok.inj (hkey.symm.trans hq)) hk
          · simp only [putMember_comm hk]
            exact ih hlater _

/-- A value that is written in full, with texts that are texts and numbers in range. -/
inductive Strict : Node → Prop where
  | null : Strict .null
  | boolean (b : Bool) : Strict (.boolean b)
  | numeral {n : Numeral} {x : Number} (hnumber : n.number = .ok x) : Strict (.numeral n)
  | quoted {q : Quoted} {s : String} (htext : q.text = .ok s) : Strict (.quoted q)
  | array {items : List Node} (hitems : ∀ item ∈ items, Strict item) :
    Strict (.array items .closed)
  | object {members : List (Quoted × Node)} (hkeys : ∀ m ∈ members, ∃ s, m.1.text = .ok s)
    (hvalues : ∀ m ∈ members, Strict m.2) : Strict (.object members .closed)

/-- Items that can be read untyped one by one can be read together. -/
theorem exists_itemValues {room : Nat} {items : List Node}
    (hitems : ∀ item ∈ items, ∃ v, item.value room = .ok v) :
    ∃ vs, itemValues room .closed items = .ok vs := by
  induction items with
  | nil => exact ⟨[], rfl⟩
  | cons item rest ih =>
    rw [List.forall_mem_cons] at hitems
    obtain ⟨v, hv⟩ := hitems.1
    obtain ⟨vs, hvs⟩ := ih hitems.2
    exact ⟨v :: vs, by simp only [itemValues, hv, hvs, Except.map]⟩

/-- Members that can be read untyped one by one can be read together. -/
theorem exists_memberValues {room : Nat} {members : List (Quoted × Node)}
    (hkeys : ∀ m ∈ members, ∃ s, m.1.text = .ok s)
    (hvalues : ∀ m ∈ members, ∃ v, m.2.value room = .ok v) (done : List (String × Value)) :
    ∃ out, memberValues room .closed done members = .ok out := by
  induction members generalizing done with
  | nil => exact ⟨done, rfl⟩
  | cons m rest ih =>
    rw [List.forall_mem_cons] at hkeys hvalues
    obtain ⟨s, hs⟩ := hkeys.1
    obtain ⟨v, hv⟩ := hvalues.1
    obtain ⟨out, hout⟩ := ih hkeys.2 hvalues.2 (putMember s v done)
    exact ⟨out, by simp only [memberValues, hs, hv, hout]⟩

/-- A strict value can be read untyped wherever there is room for its nesting. -/
theorem Strict.exists_value {node : Node} (hstrict : node.Strict) {room : Nat}
    (hdepth : node.depth ≤ room) : ∃ v, node.value room = .ok v := by
  induction hstrict generalizing room with
  | null => exact ⟨_, rfl⟩
  | boolean b => exact ⟨_, rfl⟩
  | numeral hnumber => exact ⟨_, by rw [value, hnumber]; rfl⟩
  | quoted htext => exact ⟨_, by rw [value, htext]; rfl⟩
  | @array items hitems ih =>
    rw [depth] at hdepth
    obtain ⟨inner, rfl⟩ : ∃ inner, room = inner + 1 := ⟨room - 1, by omega⟩
    have hall : ∀ item ∈ items, ∃ v, item.value inner = .ok v := by
      intro item hitem
      have hle := depth_le_itemsDepth hitem
      exact ih item hitem (by omega)
    obtain ⟨vs, hvs⟩ := exists_itemValues hall
    exact ⟨.array vs, by simp only [value, hvs, Except.map]⟩
  | @object members hkeys hvalues ih =>
    rw [depth] at hdepth
    obtain ⟨inner, rfl⟩ : ∃ inner, room = inner + 1 := ⟨room - 1, by omega⟩
    have hall : ∀ m ∈ members, ∃ v, m.2.value inner = .ok v := by
      intro m hm
      have hle := depth_le_membersDepth hm
      exact ih m hm (by omega)
    obtain ⟨out, hout⟩ := exists_memberValues hkeys hall []
    exact ⟨.object out, by simp only [value, hout, Except.map]⟩

end Node

/-- The second list of members is the first without some members that are repeated later. What is
left out is strict, and nested no deeper than the limit allows inside `around` open containers. -/
inductive WithoutRepeats (around : Nat) :
    List (Quoted × Node) → List (Quoted × Node) → Prop where
  | nil : WithoutRepeats around [] []
  | keep (m : Quoted × Node) {members kept : List (Quoted × Node)}
    (hrest : WithoutRepeats around members kept) :
    WithoutRepeats around (m :: members) (m :: kept)
  | drop {m later : Quoted × Node} {key : String} {members kept : List (Quoted × Node)}
    (hkey : m.1.text = .ok key) (hlater : later ∈ members) (hrepeated : later.1.text = .ok key)
    (hstrict : m.2.Strict) (hdepth : around + m.2.depth ≤ nestingLimit)
    (hrest : WithoutRepeats around members kept) : WithoutRepeats around (m :: members) kept

namespace Node

/-- Members that are repeated later can be left out before the others are read. -/
theorem memberValues_withoutRepeats {around room : Nat} (hroom : nestingLimit ≤ around + room)
    {members kept : List (Quoted × Node)} (hkept : WithoutRepeats around members kept)
    (ending : ObjectEnd) (done : List (String × Value)) :
    memberValues room ending done members = memberValues room ending done kept := by
  induction hkept generalizing done with
  | nil => rfl
  | keep m _ ih =>
    obtain ⟨q, node⟩ := m
    simp only [memberValues, ih]
  | @drop m later key members kept hkey hlater hrepeated hstrict hdepth _ ih =>
    obtain ⟨v, hv⟩ := hstrict.exists_value (by omega : m.2.depth ≤ room)
    rw [memberValues]
    simp only [hkey, hv]
    rw [memberValues_putMember hlater hrepeated, ih]

/-- An untyped object is the same without the members that are repeated later. -/
theorem value_withoutRepeats {around room : Nat} (hroom : nestingLimit ≤ around + room)
    {members kept : List (Quoted × Node)} (hkept : WithoutRepeats (around + 1) members kept) :
    value room (.object members .closed) = value room (.object kept .closed) := by
  cases room with
  | zero => rfl
  | succ room =>
    have hroom' : nestingLimit ≤ around + 1 + room := by omega
    simp only [value, memberValues_withoutRepeats hroom' hkept]

/-- Items are read untyped as a list of untyped values is. -/
theorem itemValues_eq_items (room : Nat) (ending : ArrayEnd) (items : List Node) :
    itemValues room ending items = Read.items (value room) ending.next? items := by
  induction items with
  | nil => rfl
  | cons item rest ih =>
    rw [itemValues, Read.items, ih]
    cases value room item <;> rfl

/-- Members are read untyped one after the other. -/
theorem memberValues_append (room : Nat) (ending : ObjectEnd) (front rest : List (Quoted × Node))
    (done : List (String × Value)) :
    memberValues room ending done (front ++ rest) =
      (memberValues room .closed done front).bind fun done =>
        memberValues room ending done rest := by
  induction front generalizing done with
  | nil => rfl
  | cons m front ih =>
    obtain ⟨q, node⟩ := m
    rw [List.cons_append, memberValues, memberValues]
    cases q.text with
    | error f => rfl
    | ok k =>
      cases node.value room with
      | error f => rfl
      | ok v => exact ih _

/-- What an untyped container makes of a part depends on the value of the part alone. -/
theorem value_fill_eq (s : Surround) {room : Nat} {v v' : Node}
    (hvalue : value (room - 1) v = value (room - 1) v') :
    value room (s.fill v) = value room (s.fill v') := by
  cases room with
  | zero => cases s <;> rfl
  | succ room =>
    rw [Nat.add_sub_cancel] at hvalue
    cases s with
    | items done rest =>
      simp only [Surround.fill, value, itemValues_eq_items, Read.items_append, hvalue]
    | member done key rest =>
      simp only [Surround.fill, value, memberValues_append, memberValues, hvalue]

/-- Nodes that are read alike are read alike inside containers. -/
theorem value_plug_eq (surrounds : List Surround) {room : Nat} {v v' : Node}
    (hvalue : value (room - surrounds.length) v = value (room - surrounds.length) v') :
    value room (plug surrounds v) = value room (plug surrounds v') := by
  induction surrounds generalizing v v' with
  | nil => exact hvalue
  | cons s outer ih =>
    refine ih (value_fill_eq s ?_)
    rwa [Nat.sub_sub]

end Node

end EngineHost.Json
