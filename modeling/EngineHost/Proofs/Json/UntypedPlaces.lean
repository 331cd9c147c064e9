import EngineHost.Proofs.Json.Repeats
import EngineHost.Proofs.Json.Update

/-!
# Places in untyped data

A fault at a place in untyped data is met before anything that follows. Where the data is read, a
member that no later one replaces stands in it under its name, and an item at its index, so that the
data is the same container around whatever value the place has.
-/

namespace EngineHost.Json

/-! ### Faults -/

/-- In a container that is read untyped, the part at the place is read, and a fault of the part is
met before anything that follows. -/
theorem Frame.Holds.value_fault {frame : Frame} {outer outer' v v' : Node}
    (hholds : frame.Holds outer v) (hholds' : frame.Holds outer' v') {room : Nat} {x : Value}
    (hvalue : outer.value (room + 1) = .ok x) :
    (∃ y, v.value room = .ok y) ∧
      ∀ f, v'.value room = .error f → outer'.value (room + 1) = .error f := by
  cases hholds with
  | @items done more ending =>
    cases hholds' with
    | items =>
      simp only [Node.value, Node.itemValues_eq_items, Read.items_append] at hvalue ⊢
      cases hfront : Read.items (Node.value room) none done.reverse with
      | error f => simp [hfront, Except.bind, Except.map] at hvalue
      | ok as =>
        cases hv : v.value room with
        | error f => simp [hfront, hv, Except.bind, Except.map] at hvalue
        | ok y =>
          refine ⟨⟨y, rfl⟩, fun f hf => ?_⟩
          simp only [hf, Except.bind, Except.map]
  | @member done more key ending =>
    cases hholds' with
    | member =>
      simp only [Node.value, Node.memberValues_append, Node.memberValues] at hvalue ⊢
      cases hfront : Node.memberValues room .closed [] done.reverse with
      | error f => simp [hfront, Except.bind, Except.map] at hvalue
      | ok front =>
        cases hkey : key.text with
        | error f => simp [hfront, hkey, Except.bind, Except.map] at hvalue
        | ok k =>
          cases hv : v.value room with
          | error f => simp [hfront, hkey, hv, Except.bind, Except.map] at hvalue
          | ok y =>
            refine ⟨⟨y, rfl⟩, fun f hf => ?_⟩
            simp only [hf, Except.bind, Except.map]

/-- A container is read untyped only where it may be opened. -/
theorem Frame.Holds.pos_of_value {frame : Frame} {outer v : Node} (hholds : frame.Holds outer v)
    {room : Nat} {x : Value} (hvalue : outer.value room = .ok x) : 0 < room := by
  cases room with
  | zero => cases hholds <;> cases hvalue
  | succ room => exact Nat.succ_pos room

/-- The same along a path. -/
theorem At.value_fault {stack : List Frame} {root root' v v' : Node} (hat : At stack root v)
    (hat' : At stack root' v') {room : Nat} {x : Value} (hvalue : root.value room = .ok x) :
    (∃ y, v.value (room - stack.length) = .ok y) ∧
      ∀ f, v'.value (room - stack.length) = .error f → root'.value room = .error f := by
  induction stack generalizing v v' with
  | nil =>
    cases hat
    cases hat'
    exact ⟨⟨x, hvalue⟩, fun f hf => hf⟩
  | cons frame stack ih =>
    cases hat with
    | inside houter hholds =>
      cases hat' with
      | inside houter' hholds' =>
        obtain ⟨⟨y, hy⟩, hfault⟩ := ih houter houter'
        have hpos := hholds.pos_of_value hy
        have hroom : room - stack.length = room - (frame :: stack).length + 1 := by
          rw [List.length_cons]
          omega
        rw [hroom] at hy hfault
        obtain ⟨hpart, hinner⟩ := hholds.value_fault hholds' hy
        exact ⟨hpart, fun f hf => hfault f (hinner f hf)⟩

/-! ### Changes -/

/-- The place at which a member is put does not depend on its value. -/
theorem exists_putMember_eq (key : String) (members : List (String × Value)) :
    ∃ front back, ∀ x, putMember key x members = front ++ (key, x) :: back := by
  induction members with
  | nil => exact ⟨[], [], fun x => rfl⟩
  | cons m rest ih =>
    obtain ⟨k, v⟩ := m
    simp only [putMember]
    split
    · exact ⟨[], (k, v) :: rest, fun x => rfl⟩
    · split
      · exact ⟨[], rest, fun x => rfl⟩
      · obtain ⟨front, back, hrest⟩ := ih
        exact ⟨(k, v) :: front, back, fun x => by rw [hrest, List.cons_append]⟩

/-- Another member leaves a member where it is. -/
theorem exists_putMember_append {key other : String} (hne : other ≠ key) (y : Value)
    (front back : List (String × Value)) :
    ∃ front' back', ∀ x, putMember other y (front ++ (key, x) :: back) =
      front' ++ (key, x) :: back' := by
  induction front with
  | nil =>
    simp only [List.nil_append, putMember, if_neg hne]
    split
    · exact ⟨[(other, y)], back, fun x => rfl⟩
    · exact ⟨[], putMember other y back, fun x => rfl⟩
  | cons m front ih =>
    obtain ⟨k, v⟩ := m
    simp only [List.cons_append, putMember]
    split
    · exact ⟨(other, y) :: (k, v) :: front, back, fun x => rfl⟩
    · split
      · exact ⟨(other, y) :: front, back, fun x => rfl⟩
      · obtain ⟨front', back', hrest⟩ := ih
        exact ⟨(k, v) :: front', back', fun x => by rw [hrest, List.cons_append]⟩

/-- Members with other names leave a member where it is. -/
theorem Node.exists_memberValues_append {room : Nat} {name : String}
    {members : List (Quoted × Node)} (hother : ∀ m ∈ members, m.1.text ≠ .ok name)
    {front back : List (String × Value)} {x₀ : Value} {out : List (String × Value)}
    (hvalues : memberValues room .closed (front ++ (name, x₀) :: back) members = .ok out) :
    ∃ front' back', ∀ x, memberValues room .closed (front ++ (name, x) :: back) members =
      .ok (front' ++ (name, x) :: back') := by
  induction members generalizing front back with
  | nil => exact ⟨front, back, fun x => rfl⟩
  | cons m rest ih =>
    rw [List.forall_mem_cons] at hother
    simp only [memberValues] at hvalues ⊢
    cases hkey : m.1.text with
    | error f => simp [hkey] at hvalues
    | ok k =>
      cases hv : m.2.value room with
      | error f => simp [hkey, hv] at hvalues
      | ok y =>
        have hne : k ≠ name := fun heq => hother.1 (by rw [hkey, heq])
        obtain ⟨front₁, back₁, hput⟩ := exists_putMember_append hne y front back
        simp only [hkey, hv, hput] at hvalues ⊢
        exact ih hother.2 hvalues

/-- No member behind the place has the name of the one at the place. -/
def Surround.Last : Surround → Prop
  | .items _ _ => True
  | .member _ key rest => ∀ m ∈ rest, m.1.text ≠ key.text

/-- An untyped array is a container of any of its items. -/
theorem hole_valueArray (front rest : List Value) :
    Hole (.items front) fun v => .array (front ++ v :: rest) := by
  have hlength : ∀ v : Value, (front ++ v :: rest).length = front.length + (rest.length + 1) := by
    simp
  have hview : ∀ v, Source.view (Value.array (front ++ v :: rest)) =
      .ok (.array (front ++ v :: rest) none fun count =>
        if count < front.length + (rest.length + 1) then
          some (.tooLong (front.length + (rest.length + 1)))
        else none) := by
    intro v
    simp only [Source.view, Value.view, hlength]
  exact .items hview fun _ => rfl

/-- An untyped object is a container of any of its members. -/
theorem hole_valueObject (front rest : List (String × Value)) (key : String) :
    Hole (.member (front.map fun (key, value) => (.ok key, value)) (.ok key))
      fun v => .object (front ++ (key, v) :: rest) := by
  have hview : ∀ v, Source.view (Value.object (front ++ (key, v) :: rest)) =
      .ok (.object ((front.map fun (key, value) => (.ok key, value)) ++
        (.ok key, v) :: rest.map fun (key, value) => (.ok key, value)) none) := by
    intro v
    simp only [Source.view, Value.view, List.map_append, List.map_cons]
  exact .member hview fun _ => rfl

/-- A container around a place becomes a container around the value of the place. -/
theorem Surround.exists_hole {s : Surround} (hlast : s.Last) {step : Step}
    (htake : s.frame.opening.Takes step) {room : Nat} {v₀ : Node} {x₀ : Value}
    (hvalue : (s.fill v₀).value (room + 1) = .ok x₀) :
    ∃ (o : Opening Value) (C : Value → Value), Hole o C ∧ o.Takes step ∧
      ∀ v : Node, (s.fill v).value (room + 1) = (v.value room).map C := by
  cases s with
  | items done rest =>
    simp only [Surround.fill, Node.value, Node.itemValues_eq_items, Read.items_append,
      ArrayEnd.next?] at hvalue ⊢
    cases hfront : Read.items (Node.value room) none done.reverse with
    | error f => simp [hfront, Except.bind, Except.map] at hvalue
    | ok front =>
      cases hv₀ : v₀.value room with
      | error f => simp [hfront, hv₀, Except.bind, Except.map] at hvalue
      | ok y =>
        cases hrest : Read.items (Node.value room) none rest with
        | error f => simp [hfront, hv₀, hrest, Except.bind, Except.map] at hvalue
        | ok back =>
          refine ⟨.items front, _, hole_valueArray front back, ?_, fun v => ?_⟩
          · have hlength := Read.length_of_items hfront
            cases step with
            | item index => exact hlength.trans htake
            | field names index => exact hlength.trans htake
          · cases v.value room <;> rfl
  | member done key rest =>
    cases step with
    | item index => exact absurd htake id
    | field names index =>
      obtain ⟨name, hname, hkey⟩ := htake
      have hother : ∀ m ∈ rest, m.1.text ≠ .ok name := by
        intro m hm
        rw [← hkey]
        exact hlast m hm
      simp only [Surround.fill, Node.value, Node.memberValues_append, Node.memberValues, hkey]
        at hvalue ⊢
      cases hfront : Node.memberValues room .closed [] done.reverse with
      | error f => simp [hfront, Except.bind, Except.map] at hvalue
      | ok before =>
        cases hv₀ : v₀.value room with
        | error f => simp [hfront, hv₀, Except.bind, Except.map] at hvalue
        | ok y =>
          obtain ⟨front, back, hput⟩ := exists_putMember_eq name before
          simp only [hfront, hv₀, Except.bind, hput] at hvalue ⊢
          obtain ⟨out, hout, -⟩ := map_eq_ok_iff.mp hvalue
          obtain ⟨front', back', hrest⟩ := Node.exists_memberValues_append hother hout
          refine ⟨_, _, hole_valueObject front' back' name, ⟨name, hname, rfl⟩, fun v => ?_⟩
          cases v.value room with
          | error f => rfl
          | ok x => simp only [hrest, Except.map]

/-- Containers around a place become containers around the value of the place. -/
theorem exists_holes_of_value {surrounds : List Surround} (hlast : ∀ s ∈ surrounds, s.Last)
    {path : List Step} (halong : Along (surrounds.map Surround.frame) path) {room : Nat}
    {v₀ : Node} {x₀ : Value} (hvalue : (plug surrounds v₀).value room = .ok x₀) :
    ∃ (os : List (Opening Value)) (C : Value → Value), Holes os C ∧
      List.Forall₂ Opening.Takes os path ∧
      ∀ v : Node, (plug surrounds v).value room = (v.value (room - surrounds.length)).map C := by
  induction surrounds generalizing path v₀ with
  | nil =>
    cases halong
    refine ⟨[], _, .nil, .nil, fun v => ?_⟩
    change v.value room = (v.value room).map fun x => x
    cases v.value room <;> rfl
  | cons s outer ih =>
    rw [List.forall_mem_cons] at hlast
    cases halong with
    | cons htake halong =>
      obtain ⟨os, D, hD, htakes, hplug⟩ := ih hlast.2 halong hvalue
      obtain ⟨y, hy, -⟩ := map_eq_ok_iff.mp ((hplug (s.fill v₀)).symm.trans hvalue)
      have hpos := (s.holds_fill v₀).pos_of_value hy
      have hroom : room - outer.length = room - (s :: outer).length + 1 := by
        rw [List.length_cons]
        omega
      rw [hroom] at hy hplug
      obtain ⟨o, C, hC, htake', hs⟩ := Surround.exists_hole hlast.1 htake hy
      refine ⟨o :: os, _, .cons hC hD, .cons htake' htakes, fun v => ?_⟩
      rw [plug, hplug, hs]
      cases v.value (room - (s :: outer).length) <;> rfl

end EngineHost.Json
