import EngineHost.Proofs.Json.Draft
import Mathlib.Data.List.Forall2

/-!
# What a record was read from

A record that is read without a fault was written in full: as an object whose members are all read
or skipped, or as an array with no more items than there are fields. Everything that the draft
holds in the end was read from a member with the right name, or from the item in its place.
-/

namespace EngineHost.Json

variable {α β δ : Type}

/-- Another item may be missing without a fault just in case the array is closed. -/
@[simp] theorem ArrayEnd.next?_eq_none_iff {ending : ArrayEnd} :
    ending.next? = none ↔ ending = .closed := by
  cases ending <;> simp [ArrayEnd.next?]

/-- An array can be left without a fault just in case it is closed. -/
@[simp] theorem ArrayEnd.enough?_eq_none_iff {ending : ArrayEnd} :
    ending.enough? = none ↔ ending = .closed := by
  cases ending <;> simp [ArrayEnd.enough?]

/-- Another member may be missing without a fault just in case the object is closed. -/
@[simp] theorem ObjectEnd.next?_eq_none_iff {ending : ObjectEnd} :
    ending.next? = none ↔ ending = .closed := by
  cases ending <;> simp [ObjectEnd.next?]

/-- The arrays that readers see are arrays. -/
theorem Node.eq_array_of_view {node : Node} {items : List Node} {next? : Option Fault}
    {enough? : Nat → Option Fault} (hview : Source.view node = .ok (.array items next? enough?)) :
    ∃ ending : ArrayEnd, node = .array items ending ∧ next? = ending.next? ∧
      enough? = fun count =>
        if count < items.length then some .trailingCharacters else ending.enough? := by
  change node.view = _ at hview
  cases node with
  | array items' ending =>
    cases hview
    exact ⟨ending, rfl, rfl, rfl⟩
  | numeral n => cases hn : n.number <;> simp [Node.view, hn, Except.map] at hview
  | quoted q => cases hq : q.text <;> simp [Node.view, hq, Except.map] at hview
  | null | boolean _ | object _ _ | broken _ => cases hview

/-- The members of an object as a reader sees them. -/
def seenMembers (members : List (Quoted × Node)) : List (Except Fault String × Node) :=
  members.map fun (key, value) => (key.text, value)

namespace Read

/-- The items of an array are all read, and nothing is wrong at its end. -/
theorem items_eq_ok_iff {item : Node → Except Fault α} {next? : Option Fault} {nodes : List Node}
    {as : List α} :
    items item next? nodes = .ok as ↔
      next? = none ∧ List.Forall₂ (fun a node => item node = .ok a) as nodes := by
  induction nodes generalizing as with
  | nil => cases next? <;> simp [items, eq_comm]
  | cons node rest ih =>
    rw [items]
    cases hnode : item node with
    | error f => cases as <;> simp [hnode]
    | ok a =>
      cases as with
      | nil => cases hrest : items item next? rest <;> simp [Except.map]
      | cons a' as =>
        rw [List.forall₂_cons, ← and_assoc, and_comm (a := next? = none), and_assoc, ← ih, hnode]
        cases hrest : items item next? rest <;> simp [Except.map]

/-- A list is read from an array that is written in full, item by item. -/
theorem list_eq_ok_iff {item : Node → Except Fault α} {node : Node} {as : List α} :
    list item node = .ok as ↔ ∃ nodes, node = .array nodes .closed ∧
      List.Forall₂ (fun a node => item node = .ok a) as nodes := by
  constructor
  · intro hread
    unfold list at hread
    split at hread
    case h_2 nodes next? enough? hview =>
      obtain ⟨ending, rfl, rfl, -⟩ := Node.eq_array_of_view hview
      obtain ⟨hclosed, hitems⟩ := items_eq_ok_iff.mp hread
      rw [ArrayEnd.next?_eq_none_iff] at hclosed
      subst hclosed
      exact ⟨nodes, rfl, hitems⟩
    all_goals cases hread
  · rintro ⟨nodes, rfl, hitems⟩
    exact items_eq_ok_iff.mpr ⟨rfl, hitems⟩

end Read

/-- The item `v` stands in a record for the field with these names and this place: as a member of
an object, or in its place in an array. -/
inductive Node.Gives (names : List String) (place : Nat) : Node → Node → Prop where
  | member {members : List (Quoted × Node)} {ending : ObjectEnd} {key : Quoted} {name : String}
    {v : Node} (hmember : (key, v) ∈ members) (hkey : key.text = .ok name) (hname : name ∈ names) :
    Gives names place (.object members ending) v
  | item {items : List Node} {ending : ArrayEnd} {v : Node} (hitem : items[place]? = some v) :
    Gives names place (.array items ending) v

namespace Record

/-- The fault of a field whose place lies behind the end of the array. -/
def missing (record : Record Node δ α) (place : Nat) : Fault :=
  .tooShort place record.name record.fields.length

/-- A node that is written in full and fills this draft. -/
inductive Fills (record : Record Node δ α) : Node → δ → Prop where
  | items {items : List Node} {d : δ} (hlength : items.length ≤ record.fields.length)
    (hfill : fillItems record.missing none 0 record.fields items record.blank = .ok d) :
    Fills record (.array items .closed) d
  | members {members : List (Quoted × Node)} {d : δ}
    (hfill : fillMembers record.fields (seenMembers members) record.blank = .ok d) :
    Fills record (.object members .closed) d

/-- A record is read from an array by filling in its items, and then leaving the array. -/
theorem read_array (record : Record Node δ α) (items : List Node) (ending : ArrayEnd) :
    record.read (.array items ending) =
      match fillItems record.missing ending.next? 0 record.fields items record.blank with
      | .error f => .error f
      | .ok d =>
        match if min items.length record.fields.length < items.length then
            some Fault.trailingCharacters else ending.enough? with
        | some f => .error f
        | none => record.build d := rfl

/-- A record is read from an object by filling in its members, and then leaving the object. -/
theorem read_object (record : Record Node δ α) (members : List (Quoted × Node))
    (ending : ObjectEnd) :
    record.read (.object members ending) =
      match fillMembers record.fields (seenMembers members) record.blank with
      | .error f => .error f
      | .ok d =>
        match ending.next? with
        | some f => .error f
        | none => record.build d := rfl

/-- A record is read from the nodes that fill a draft out of which it can be built. -/
theorem read_eq_ok_iff {record : Record Node δ α} {node : Node} {a : α} :
    record.read node = .ok a ↔ ∃ d, record.Fills node d ∧ record.build d = .ok a := by
  constructor
  · intro hread
    cases node with
    | array items ending =>
      rw [read_array] at hread
      split at hread
      case h_1 => cases hread
      case h_2 d hfill =>
        split at hread
        case h_1 => cases hread
        case h_2 henough =>
          split at henough
          case isTrue => cases henough
          case isFalse hlength =>
            rw [ArrayEnd.enough?_eq_none_iff] at henough
            subst henough
            exact ⟨d, .items (by omega) hfill, hread⟩
    | object members ending =>
      rw [read_object] at hread
      split at hread
      case h_1 => cases hread
      case h_2 d hfill =>
        split at hread
        case h_1 => cases hread
        case h_2 hnext =>
          rw [ObjectEnd.next?_eq_none_iff] at hnext
          subst hnext
          exact ⟨d, .members hfill, hread⟩
    | numeral n =>
      cases hn : n.number <;> simp [read, Source.view, Node.view, hn, Except.map] at hread
    | quoted q => cases hq : q.text <;> simp [read, Source.view, Node.view, hq, Except.map] at hread
    | null | boolean _ | broken _ => cases hread
  · rintro ⟨d, hfills, hbuild⟩
    cases hfills with
    | @items items _ hlength hfill =>
      have hall : ¬min items.length record.fields.length < items.length := by omega
      rw [read_array, ArrayEnd.next?]
      simp only [hfill, if_neg hall]
      exact hbuild
    | members hfill =>
      rw [read_object]
      simp only [hfill]
      exact hbuild

/-! ### Where the fields were written -/

namespace LaidOut

variable {record : Record Node δ α} (hlaid : record.LaidOut) {place : Nat} {field : Field Node δ}
  (hplace : record.fields[place]? = some field)
include hlaid hplace

/-- What the draft holds after the members of an object it held before, or it was read from a member
with a name of the field. -/
theorem of_fillMembers {members : List (Except Fault String × Node)} {d d' : δ}
    (hfill : fillMembers record.fields members d = .ok d') {x : field.Content}
    (hx : field.get d' = some x) :
    field.get d = some x ∨
      ∃ name v, (.ok name, v) ∈ members ∧ field.answers name = true ∧ field.read v = .ok x := by
  induction members generalizing d with
  | nil =>
    cases hfill
    exact .inl hx
  | cons m rest ih =>
    obtain ⟨f | name, v⟩ := m
    · cases hfill
    · rw [fillMembers] at hfill
      split at hfill
      case h_1 =>
        split at hfill
        case h_1 => cases hfill
        case h_2 =>
          rcases ih hfill with hbefore | ⟨name', v', hmem, hlater⟩
          · exact .inl hbefore
          · exact .inr ⟨name', v', List.mem_cons_of_mem _ hmem, hlater⟩
      case h_2 other hfind =>
        split at hfill
        case isTrue => cases hfill
        case isFalse =>
          split at hfill
          case h_1 => cases hfill
          case h_2 longer hlonger =>
            rcases ih hfill with hbefore | ⟨name', v', hmem, hlater⟩
            · obtain ⟨i, hi⟩ := List.mem_iff_getElem?.mp (List.mem_of_find?_eq_some hfind)
              rcases hlaid.get_of_fill hi hplace hlonger with hsame | ⟨rfl, y, hread, hy⟩
              · exact .inl (hsame.symm.trans hbefore)
              · obtain rfl : y = x := Option.some.inj (hy.symm.trans hbefore)
                obtain rfl : other = field := Option.some.inj (hi.symm.trans hplace)
                have hanswers : other.answers name = true := by
                  simpa using List.find?_some hfind
                exact .inr ⟨name, v, List.mem_cons_self .., hanswers, hread⟩
            · exact .inr ⟨name', v', List.mem_cons_of_mem _ hmem, hlater⟩

/-- What the draft holds after the items of an array it held before, or it was read from the item in
the place of the field. The fields that are still to be filled are those from `index` on. -/
theorem of_fillItems {missing : Nat → Fault} {next? : Option Fault} {index : Nat}
    {fields : List (Field Node δ)} (hfields : ∀ i, fields[i]? = record.fields[index + i]?)
    {items : List Node} {d d' : δ}
    (hfill : fillItems missing next? index fields items d = .ok d') {x : field.Content}
    (hx : field.get d' = some x) :
    field.get d = some x ∨
      ∃ i v, place = index + i ∧ items[i]? = some v ∧ field.read v = .ok x := by
  induction fields generalizing index items d with
  | nil =>
    cases hfill
    exact .inl hx
  | cons first fields ih =>
    have hfirst : record.fields[index]? = some first := (hfields 0).symm
    have hrest : ∀ i, fields[i]? = record.fields[index + 1 + i]? := by
      intro i
      rw [Nat.add_right_comm]
      exact hfields (i + 1)
    cases items with
    | nil =>
      unfold fillItems at hfill
      split at hfill
      case h_1 => cases hfill
      case h_2 =>
        split at hfill
        case isFalse => cases hfill
        case isTrue =>
          rcases ih hrest hfill with hbefore | ⟨i, v, -, hnone, -⟩
          · exact .inl hbefore
          · simp at hnone
    | cons item items =>
      rw [fillItems] at hfill
      split at hfill
      case h_1 => cases hfill
      case h_2 longer hlonger =>
        rcases ih hrest hfill with hbefore | ⟨i, v, hlater, hitem, hread⟩
        · rcases hlaid.get_of_fill hfirst hplace hlonger with hsame | ⟨rfl, y, hread, hy⟩
          · exact .inl (hsame.symm.trans hbefore)
          · obtain rfl : y = x := Option.some.inj (hy.symm.trans hbefore)
            exact .inr ⟨0, item, rfl, rfl, hread⟩
        · exact .inr ⟨i + 1, v, by omega, hitem, hread⟩

/-- What a draft holds in the end stands in the node for its field. -/
theorem exists_of_fills {node : Node} {d : δ} (hfills : record.Fills node d) {x : field.Content}
    (hx : field.get d = some x) :
    ∃ v, node.Gives field.names place v ∧ field.read v = .ok x := by
  have hblank : field.get record.blank ≠ some x := by
    rw [hlaid.blank field (List.mem_of_getElem? hplace)]
    exact Option.some_ne_none x |>.symm
  cases hfills with
  | items hlength hfill =>
    have hall : ∀ i, record.fields[i]? = record.fields[0 + i]? := by simp
    rcases hlaid.of_fillItems hplace hall hfill hx with hbefore | ⟨i, v, hi, hitem, hread⟩
    · exact absurd hbefore hblank
    · obtain rfl : place = i := by omega
      exact ⟨v, .item hitem, hread⟩
  | members hfill =>
    rcases hlaid.of_fillMembers hplace hfill hx with hbefore | ⟨name, v, hmember, hanswers, hread⟩
    · exact absurd hbefore hblank
    · obtain ⟨⟨key, value⟩, hwritten, hseen⟩ := List.mem_map.mp hmember
      obtain ⟨hkey, rfl⟩ := Prod.mk.inj hseen
      exact ⟨value, .member hwritten hkey (Field.answers_iff.mp hanswers), hread⟩

end LaidOut

/-! ### Records of a single field -/

/-- The only field of a record, which is kept in the draft as it was read. -/
def soleField (key : String) (read : Node → Except Fault β) : Field Node (Option β) :=
  { name := key, read := read, put := fun x _ => some x, get := id }

/-- A member that a record with this only key skips. -/
def Skipped (key : String) (m : Quoted × Node) : Prop :=
  ∃ name, m.1.text = .ok name ∧ name ≠ key ∧ m.2.check = .ok ()

/-- A record that is written in full and has this node in its only field. -/
inductive Sole (key : String) : Node → Node → Prop where
  | item {v : Node} : Sole key (.array [v] .closed) v
  | member {front back : List (Quoted × Node)} {q : Quoted} {v : Node} (hkey : q.text = .ok key)
    (hothers : ∀ m ∈ front ++ back, Skipped key m) :
    Sole key (.object (front ++ (q, v) :: back) .closed) v

/-- One more member while the only field is still empty. -/
theorem fillMembers_sole_cons {key : String} {read : Node → Except Fault β} {q : Quoted} {v : Node}
    {rest : List (Quoted × Node)} {draft d : Option β} :
    fillMembers [soleField key read] (seenMembers ((q, v) :: rest)) draft = .ok d ↔
      (Skipped key (q, v) ∧ fillMembers [soleField key read] (seenMembers rest) draft = .ok d) ∨
      (q.text = .ok key ∧ draft = none ∧ ∃ x, read v = .ok x ∧
        fillMembers [soleField key read] (seenMembers rest) (some x) = .ok d) := by
  change fillMembers _ ((q.text, v) :: seenMembers rest) draft = _ ↔ _
  unfold Skipped
  cases hq : q.text with
  | error f => simp [fillMembers]
  | ok name =>
    by_cases hname : name = key
    · subst hname
      have hfind : [soleField name read].find? (·.answers name) = some (soleField name read) := by
        simp [Field.answers, soleField]
      rw [fillMembers]
      simp only [hfind]
      cases draft with
      | some x => simp [soleField, Field.filled]
      | none =>
        cases hread : read v <;> simp [soleField, Field.filled, Field.fill, hread, Except.map]
    · have hfind : [soleField key read].find? (·.answers name) = none := by
        simpa [Field.answers, soleField] using hname
      rw [fillMembers]
      simp only [hfind, Source.check]
      cases hcheck : v.check <;> simp [hname]

/-- Once the only field is filled, the members that follow are skipped. -/
theorem fillMembers_sole_some {key : String} {read : Node → Except Fault β}
    {members : List (Quoted × Node)} {x : β} {d : Option β} :
    fillMembers [soleField key read] (seenMembers members) (some x) = .ok d ↔
      d = some x ∧ ∀ m ∈ members, Skipped key m := by
  induction members with
  | nil => simp [seenMembers, fillMembers, eq_comm]
  | cons m rest ih =>
    obtain ⟨q, v⟩ := m
    rw [fillMembers_sole_cons, ih, List.forall_mem_cons]
    simp [and_left_comm]

/-- The only field is read from the one member that has its key. -/
theorem fillMembers_sole_none {key : String} {read : Node → Except Fault β}
    {members : List (Quoted × Node)} {x : β} :
    fillMembers [soleField key read] (seenMembers members) none = .ok (some x) ↔
      ∃ front q v back, members = front ++ (q, v) :: back ∧ q.text = .ok key ∧
        (∀ m ∈ front ++ back, Skipped key m) ∧ read v = .ok x := by
  induction members with
  | nil => simp [seenMembers, fillMembers]
  | cons m rest ih =>
    obtain ⟨q, v⟩ := m
    rw [fillMembers_sole_cons, ih]
    constructor
    · rintro
        (⟨hskipped, front, q', v', back, rfl, hkey, hothers, hread⟩ | ⟨hkey, -, y, hread, hrest⟩)
      · refine ⟨(q, v) :: front, q', v', back, rfl, hkey, ?_, hread⟩
        rw [List.cons_append, List.forall_mem_cons]
        exact ⟨hskipped, hothers⟩
      · obtain ⟨hy, hothers⟩ := fillMembers_sole_some.mp hrest
        cases hy
        exact ⟨[], q, v, rest, rfl, hkey, hothers, hread⟩
    · rintro ⟨front, q', v', back, hsplit, hkey, hothers, hread⟩
      cases front with
      | nil =>
        cases hsplit
        exact .inr ⟨hkey, rfl, x, hread, fillMembers_sole_some.mpr ⟨rfl, hothers⟩⟩
      | cons first front =>
        cases hsplit
        rw [List.cons_append, List.forall_mem_cons] at hothers
        exact .inl ⟨hothers.1, front, q', v', back, rfl, hkey, hothers.2, hread⟩

/-- A record that cannot do without its only field is read from the nodes that have it. -/
theorem read_eq_ok_iff_sole {record : Record Node (Option β) α} {key : String}
    {read : Node → Except Fault β} (hfields : record.fields = [soleField key read])
    (hblank : record.blank = none) (hrequired : ∀ a, record.build none ≠ .ok a) {node : Node}
    {a : α} :
    record.read node = .ok a ↔
      ∃ v x, Sole key node v ∧ read v = .ok x ∧ record.build (some x) = .ok a := by
  rw [read_eq_ok_iff]
  constructor
  · rintro ⟨d, hfills, hbuild⟩
    obtain ⟨x, rfl⟩ : ∃ x, d = some x := by
      cases d with
      | none => exact absurd hbuild (hrequired a)
      | some x => exact ⟨x, rfl⟩
    cases hfills with
    | @items items _ hlength hfill =>
      rw [hfields, hblank] at hfill
      rw [hfields] at hlength
      cases items with
      | nil => simp [fillItems, soleField] at hfill
      | cons v rest =>
        obtain rfl : rest = [] := List.eq_nil_of_length_eq_zero (by simpa using hlength)
        cases hread : read v with
        | error f => simp [fillItems, soleField, Field.fill, hread, Except.map] at hfill
        | ok y =>
          obtain rfl : y = x := by
            simpa [fillItems, soleField, Field.fill, hread, Except.map] using hfill
          exact ⟨v, y, .item, hread, hbuild⟩
    | members hfill =>
      rw [hfields, hblank, fillMembers_sole_none] at hfill
      obtain ⟨front, q, v, back, rfl, hkey, hothers, hread⟩ := hfill
      exact ⟨v, x, .member hkey hothers, hread, hbuild⟩
  · rintro ⟨v, x, hsole, hread, hbuild⟩
    refine ⟨some x, ?_, hbuild⟩
    cases hsole with
    | item =>
      refine .items (by simp [hfields]) ?_
      simp [hfields, hblank, fillItems, soleField, Field.fill, hread, Except.map]
    | member hkey hothers =>
      refine .members ?_
      rw [hfields, hblank, fillMembers_sole_none]
      exact ⟨_, _, _, _, rfl, hkey, hothers, hread⟩

end Record

end EngineHost.Json
