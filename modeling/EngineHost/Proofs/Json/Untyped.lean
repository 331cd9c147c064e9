import EngineHost.Proofs.Json.Form

/-!
# Untyped reading keeps forms

Some data is first read as an untyped value, whose members are put in the order of their keys, and
is looked at only later. Nothing is lost on this way: what stands for the data as a node stands for
it as an untyped value, if enough levels of nesting may be opened.
-/

namespace EngineHost.Json

open Shaped

variable {α : Type}

/-- What holds of a node that may open `depth` levels of nesting holds of its value. -/
def Keeps (depth : Nat) (p : Node → Prop) (p' : Value → Prop) : Prop :=
  ∀ ⦃node⦄, p node → ∀ room, depth ≤ room → ∃ v, node.value room = .ok v ∧ p' v

/-- A node and its value stand for the same data. -/
def Carries (depth : Nat) (form : Form Node α) (form' : Form Value α) : Prop :=
  ∀ a, Keeps depth (form a) (form' a)

/-- A part of a record and the same part in untyped values. -/
structure RecordPart.Keeps (depth : Nat) (part : RecordPart Node) (part' : RecordPart Value) :
    Prop where
  names_eq : part'.names = part.names
  omissible : part.omissible → part'.omissible
  form : Json.Keeps depth part.form part'.form

/-- What holds with few levels of nesting holds with more. -/
theorem Keeps.mono {depth depth' : Nat} {p : Node → Prop} {p' : Value → Prop}
    (h : Keeps depth p p') (hle : depth ≤ depth') : Keeps depth' p p' :=
  fun _ hp room hroom => h hp room (Nat.le_trans hle hroom)

/-- An offset stays one when it is read untyped. -/
theorem carries_offset : Carries 0 Form.offset Form.offset := by
  intro n node hnode room _
  cases hnode with
  | natural hn =>
    refine ⟨.number (.integer n.toNat), ?_, .natural n.toNat⟩
    rw [Node.value, Numeral.number_digits hn]
    rfl

/-- A boolean stays one when it is read untyped. -/
theorem carries_boolean : Carries 0 Form.boolean Form.boolean := by
  intro b node hnode room _
  cases hnode with
  | boolean b => exact ⟨.boolean b, rfl, .boolean b⟩

/-- What may be missing stays so when it is read untyped. -/
theorem carries_option {depth : Nat} {item : Form Node α} {item' : Form Value α}
    (hitem : Carries depth item item') : Carries depth (Form.option item) (Form.option item') := by
  intro a node hnode room hroom
  cases a with
  | none =>
    cases hnode with
    | null => exact ⟨.null, rfl, .null⟩
  | some a => exact hitem a hnode room hroom

/-- The items of an array are read in their turn. -/
theorem itemValues_of_carries {depth room : Nat} {item : Form Node α} {item' : Form Value α}
    (hitem : Carries depth item item') (hroom : depth ≤ room) {as : List α} {nodes : List Node}
    (hnodes : List.Forall₂ item as nodes) :
    ∃ vs, Node.itemValues room .closed nodes = .ok vs ∧ List.Forall₂ item' as vs := by
  induction hnodes with
  | nil => exact ⟨[], rfl, .nil⟩
  | cons ha _ ih =>
    obtain ⟨v, hv, hform⟩ := hitem _ ha room hroom
    obtain ⟨vs, hvs, hforms⟩ := ih
    refine ⟨v :: vs, ?_, .cons hform hforms⟩
    simp [Node.itemValues, hv, hvs, Except.map]

/-- A list stays one when it is read untyped, one level deeper than its items. -/
theorem carries_list {depth : Nat} {item : Form Node α} {item' : Form Value α}
    (hitem : Carries depth item item') :
    Carries (depth + 1) (Form.list item) (Form.list item') := by
  rintro as node ⟨nodes, hnode, hnodes⟩ room hroom
  obtain ⟨room, rfl⟩ : ∃ inner, room = inner + 1 := ⟨room - 1, by omega⟩
  obtain ⟨vs, hvs, hforms⟩ := itemValues_of_carries hitem (Nat.le_of_succ_le_succ hroom) hnodes
  cases hnode with
  | array nodes =>
    refine ⟨.array vs, ?_, vs, .array vs, hforms⟩
    simp [Node.value, hvs, Except.map]

/-! ### Objects -/

/-- Describing a record does not depend on the order of the members. -/
theorem Describes.perm {ν : Type} {parts : List (RecordPart ν)} {extra : ν → Prop}
    {members members' : List (String × ν)} (h : Describes parts extra members)
    (hperm : members.Perm members') : Describes parts extra members' where
  member m hm := h.member m (hperm.mem_iff.mpr hm)
  once := by
    refine (hperm.pairwise_iff ?_).mp h.once
    intro m m' hm part hpart hm' hname
    exact hm part hpart hname hm'
  complete part hpart := by
    rcases h.complete part hpart with homissible | ⟨m, hm, hname⟩
    · exact .inl homissible
    · exact .inr ⟨m, hperm.mem_iff.mp hm, hname⟩

/-- Without extras, no two members have the same name. -/
theorem Describes.nodup {ν : Type} {parts : List (RecordPart ν)} {members : List (String × ν)}
    (h : Describes parts (fun _ => False) members) : (members.map Prod.fst).Nodup := by
  rw [List.Nodup, List.pairwise_map]
  refine List.Pairwise.imp_of_mem ?_ h.once
  intro m m' hm _ honce heq
  rcases h.member m hm with ⟨part, hpart, hname, _⟩ | ⟨_, hextra⟩
  · exact honce part hpart hname (heq ▸ hname)
  · exact hextra

/-- A new key is put in somewhere. -/
theorem putMember_perm {key : String} {v : Value} {members : List (String × Value)}
    (hkey : ∀ m ∈ members, m.1 ≠ key) : (putMember key v members).Perm ((key, v) :: members) := by
  induction members with
  | nil => exact .refl _
  | cons m rest ih =>
    have hne : key ≠ m.1 := fun heq => hkey m (List.mem_cons_self ..) heq.symm
    have hrest := ih fun m' hm' => hkey m' (List.mem_cons_of_mem m hm')
    simp only [putMember, if_neg hne]
    split
    · exact .refl _
    · exact (hrest.cons m).trans (.swap (key, v) m rest)

/-- What stands in the first of two matching lists has its counterpart in the second. -/
theorem exists_of_forall₂ {β γ : Type} {r : β → γ → Prop} {bs : List β} {cs : List γ}
    (h : List.Forall₂ r bs cs) {b : β} (hb : b ∈ bs) : ∃ c ∈ cs, r b c := by
  induction h with
  | nil => cases hb
  | @cons b' c' bs cs hr _ ih =>
    rcases List.mem_cons.mp hb with rfl | hrest
    · exact ⟨c', List.mem_cons_self .., hr⟩
    · obtain ⟨c, hc, hrc⟩ := ih hrest
      exact ⟨c, List.mem_cons_of_mem c' hc, hrc⟩

/-- A member and the same member with its value read. -/
def Typed (room : Nat) (m : String × Node) (m' : String × Value) : Prop :=
  m'.1 = m.1 ∧ m.2.value room = .ok m'.2

/-- The members of an object without repeated keys are all kept, in some order. The induction is
over the members, with `done` the members that were put in before. -/
theorem memberValues_of_typed {room : Nat} {members : List (String × Node)}
    {qs : List (Quoted × Node)} (hqs : List.Forall₂ MemberSpelled members qs)
    {typed : List (String × Value)} (htyped : List.Forall₂ (Typed room) members typed)
    (hnodup : (typed.map Prod.fst).Nodup) {done : List (String × Value)}
    (hdone : ∀ m ∈ done, m.1 ∉ typed.map Prod.fst) :
    ∃ out, Node.memberValues room .closed done qs = .ok out ∧ out.Perm (done ++ typed) := by
  induction hqs generalizing typed done with
  | nil =>
    cases htyped
    exact ⟨done, rfl, by rw [List.append_nil]⟩
  | @cons m q members qs hq _ ih =>
    obtain ⟨⟨ps, ending⟩, node⟩ := q
    obtain ⟨rfl, hkey, rfl⟩ := hq
    cases htyped with
    | @cons _ m' _ typed hm' htyped =>
      obtain ⟨hname, hvalue⟩ := hm'
      rw [List.map_cons, List.nodup_cons] at hnodup
      have hput : (putMember m'.1 m'.2 done).Perm (m' :: done) := by
        refine putMember_perm fun m₀ hm₀ heq => hdone m₀ hm₀ ?_
        rw [heq]
        exact List.mem_cons_self ..
      have hlater : ∀ m₀ ∈ putMember m'.1 m'.2 done, m₀.1 ∉ typed.map Prod.fst := by
        intro m₀ hm₀
        rcases List.mem_cons.mp (hput.mem_iff.mp hm₀) with rfl | hold
        · exact hnodup.1
        · exact fun hin => hdone m₀ hold (List.mem_cons_of_mem _ hin)
      obtain ⟨out, hout, hperm⟩ := ih htyped hnodup.2 hlater
      refine ⟨out, ?_, ?_⟩
      · rw [Node.memberValues, Quoted.text_of_spelled hkey]
        simp only [hvalue, ← hname]
        exact hout
      · have hmoved : (putMember m'.1 m'.2 done ++ typed).Perm (m' :: (done ++ typed)) :=
          hput.append_right typed
        exact (hperm.trans hmoved).trans List.perm_middle.symm

/-- Every member of a described record has its value read, and the value is of a part. -/
theorem exists_typed {depth room : Nat} (hroom : depth ≤ room) {parts : List (RecordPart Node)}
    {parts' : List (RecordPart Value)} (hparts : List.Forall₂ (RecordPart.Keeps depth) parts parts')
    {members : List (String × Node)}
    (hmembers : ∀ m ∈ members, ∃ part ∈ parts, m.1 ∈ part.names ∧ part.form m.2) :
    ∃ typed, List.Forall₂ (Typed room) members typed ∧
      ∀ m ∈ typed, ∃ part ∈ parts', m.1 ∈ part.names ∧ part.form m.2 := by
  induction members with
  | nil => exact ⟨[], .nil, fun m hm => by cases hm⟩
  | cons m members ih =>
    obtain ⟨part, hpart, hname, hform⟩ := hmembers m (List.mem_cons_self ..)
    obtain ⟨part', hpart', hkeeps⟩ := exists_of_forall₂ hparts hpart
    obtain ⟨v, hv, hform'⟩ := hkeeps.form hform room hroom
    obtain ⟨typed, htyped, hall⟩ := ih fun m' hm' => hmembers m' (List.mem_cons_of_mem m hm')
    refine ⟨(m.1, v) :: typed, .cons ⟨rfl, hv⟩ htyped, ?_⟩
    intro m' hm'
    rcases List.mem_cons.mp hm' with rfl | hrest
    · exact ⟨part', hpart', hkeeps.names_eq ▸ hname, hform'⟩
    · exact hall m' hrest

/-- Members keep their names and their order when they are read untyped. -/
theorem names_of_typed {room : Nat} {members : List (String × Node)}
    {typed : List (String × Value)} (htyped : List.Forall₂ (Typed room) members typed) :
    typed.map Prod.fst = members.map Prod.fst := by
  induction htyped with
  | nil => rfl
  | cons hm _ ih => rw [List.map_cons, List.map_cons, ih, hm.1]

/-- The members of an untyped value describe the record that the members of the node describe. -/
theorem Describes.typed {depth room : Nat} {parts : List (RecordPart Node)}
    {parts' : List (RecordPart Value)}
    (hparts : List.Forall₂ (RecordPart.Keeps depth) parts parts') {members : List (String × Node)}
    (h : Describes parts (fun _ => False) members) {typed : List (String × Value)}
    (htyped : List.Forall₂ (Typed room) members typed)
    (hmembers : ∀ m ∈ typed, ∃ part ∈ parts', m.1 ∈ part.names ∧ part.form m.2) :
    Describes parts' (fun _ => False) typed where
  member m hm := .inl (hmembers m hm)
  once := by
    have honce : (members.map Prod.fst).Pairwise fun name name' =>
        ∀ part ∈ parts, name ∈ part.names → name' ∉ part.names := by
      rw [List.pairwise_map]
      exact h.once
    rw [← names_of_typed htyped, List.pairwise_map] at honce
    refine honce.imp ?_
    intro m m' hm part' hpart'
    obtain ⟨part, hpart, hkeeps⟩ := exists_of_forall₂ hparts.flip hpart'
    rw [hkeeps.names_eq]
    exact hm part hpart
  complete part' hpart' := by
    obtain ⟨part, hpart, hkeeps⟩ := exists_of_forall₂ hparts.flip hpart'
    rcases h.complete part hpart with homissible | ⟨m, hm, hname⟩
    · exact .inl (hkeeps.omissible homissible)
    · obtain ⟨m', hm', htyped⟩ := exists_of_forall₂ htyped hm
      refine .inr ⟨m', hm', ?_⟩
      rw [htyped.1, hkeeps.names_eq]
      exact hname

/-- A record stays one when it is read untyped, one level deeper than its parts. -/
theorem carries_record {depth : Nat} {parts : α → List (RecordPart Node)}
    {parts' : α → List (RecordPart Value)}
    (hparts : ∀ a, List.Forall₂ (RecordPart.Keeps depth) (parts a) (parts' a)) :
    Carries (depth + 1) (Form.record parts fun _ => False)
      (Form.record parts' fun _ => False) := by
  rintro a node ⟨members, hnode, hmembers⟩ room hroom
  obtain ⟨room, rfl⟩ : ∃ inner, room = inner + 1 := ⟨room - 1, by omega⟩
  cases hnode with
  | object hqs =>
    have hmember : ∀ m ∈ members, ∃ part ∈ parts a, m.1 ∈ part.names ∧ part.form m.2 := by
      intro m hm
      rcases hmembers.member m hm with hpart | ⟨_, hextra⟩
      · exact hpart
      · exact hextra.elim
    obtain ⟨typed, htyped, hall⟩ := exists_typed (Nat.le_of_succ_le_succ hroom) (hparts a) hmember
    have hnodup : (typed.map Prod.fst).Nodup := names_of_typed htyped ▸ hmembers.nodup
    have hnone : ∀ m ∈ ([] : List (String × Value)), m.1 ∉ typed.map Prod.fst :=
      fun m hm => by cases hm
    obtain ⟨out, hout, hperm⟩ := memberValues_of_typed hqs htyped hnodup hnone
    refine ⟨.object out, ?_, out, .object out, ?_⟩
    · simp [Node.value, hout, Except.map]
    · exact (hmembers.typed (hparts a) htyped hall).perm hperm.symm

end EngineHost.Json
