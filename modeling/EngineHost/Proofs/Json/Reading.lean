import EngineHost.Proofs.Json.Draft
import EngineHost.Proofs.Json.Form
import Mathlib.Data.List.Pairwise

/-!
# Reading what has a form

Typed readers return the data that a value stands for. The readers of scalars and arrays are
handled one by one. A record is read member by member, in whatever order the members come, so its
proof is an induction over the members: a field is filled with what its part says exactly when its
member has been passed, and no other member touches it.
-/

namespace EngineHost.Json

open Shaped

variable {ν α β γ δ : Type}

section Values

/-- The reader returns the data that a value stands for. -/
def Reads (form : Form ν α) (read : ν → Except Fault α) : Prop :=
  ∀ ⦃a : α⦄ ⦃v : ν⦄, form a v → read v = .ok a

/-- The items of an array are read in their turn. -/
theorem Read.items_of_forall₂ {item : Form ν α} {read : ν → Except Fault α}
    (hitem : Reads item read) {as : List α} {vs : List ν} (hitems : List.Forall₂ item as vs) :
    Read.items read none vs = .ok as := by
  induction hitems with
  | nil => rfl
  | cons ha _ ih => simp [Read.items, hitem ha, ih, Except.map]

variable [Source ν] [Shaped ν]

/-- No value of the form is `null`. -/
def NeverNull (form : Form ν α) : Prop :=
  ∀ ⦃a : α⦄ ⦃v : ν⦄, form a v → ∃ shape, Shows v shape ∧ shape.isNull = false

/-- A natural number below the bound is read. -/
theorem Read.natural_of_shows {v : ν} {n bound : Nat} (hv : Shows v (.natural n)) (hn : n < bound)
    (expected : Expected) : Read.natural bound expected v = .ok n := by
  obtain ⟨enough?, hview⟩ := view_of_shows hv
  have hbound : (0 : Int) ≤ n ∧ (n : Int) < bound := by omega
  simp [Read.natural, hview, Shape.view, hbound]

/-- Offsets are read from their form. -/
theorem reads_offset : Reads (Form.offset : Form ν UInt64) Read.offset := by
  intro n v hv
  rw [Read.offset, Read.natural_of_shows hv n.toNat_lt]
  simp [Except.map]

/-- Booleans are read from their form. -/
theorem reads_boolean : Reads (Form.boolean : Form ν Bool) Read.boolean := by
  intro b v hv
  obtain ⟨enough?, hview⟩ := view_of_shows hv
  simp [Read.boolean, hview, Shape.view]

/-- Texts are read from their form. -/
theorem reads_text : Reads (Form.text : Form ν String) Read.string := by
  intro s v hv
  obtain ⟨enough?, hview⟩ := view_of_shows hv
  simp [Read.string, hview, Shape.view]

/-- No offset is written as `null`. -/
theorem neverNull_offset : NeverNull (Form.offset : Form ν UInt64) := fun _ _ hv => ⟨_, hv, rfl⟩

/-- No text is written as `null`. -/
theorem neverNull_text : NeverNull (Form.text : Form ν String) := fun _ _ hv => ⟨_, hv, rfl⟩

/-- No list is written as `null`. -/
theorem neverNull_list (item : Form ν α) : NeverNull (Form.list item) :=
  fun _ _ ⟨_, hv, _⟩ => ⟨_, hv, rfl⟩

/-- No record is written as `null`. -/
theorem neverNull_record (parts : α → List (RecordPart ν)) (extra : ν → Prop) :
    NeverNull (Form.record parts extra) := fun _ _ ⟨_, hv, _⟩ => ⟨_, hv, rfl⟩

/-- What may be missing is read from its form, where `null` stands for nothing. -/
theorem reads_option {item : Form ν α} {read : ν → Except Fault α} (hitem : Reads item read)
    (hnull : NeverNull item) : Reads (Form.option item) (Read.optional read) := by
  intro a v hv
  cases a with
  | none =>
    have hisNull := isNull_of_shows hv
    simp [Read.optional, hisNull, Shape.isNull]
  | some a =>
    obtain ⟨shape, hshape, hshapeNull⟩ := hnull hv
    have hisNull := isNull_of_shows hshape
    simp [Read.optional, hisNull, hshapeNull, hitem hv, Except.map]

/-- Lists are read from their form if their items are. -/
theorem reads_list {item : Form ν α} {read : ν → Except Fault α} (hitem : Reads item read) :
    Reads (Form.list item) (Read.list read) := by
  rintro as v ⟨vs, hv, hitems⟩
  obtain ⟨enough?, hview⟩ := view_of_shows hv
  simp only [Read.list, hview, Shape.view]
  exact Read.items_of_forall₂ hitem hitems

/-- Pairs are read from their form if both items are. -/
theorem reads_pair {first : Form ν α} {second : Form ν β} {readFirst : ν → Except Fault α}
    {readSecond : ν → Except Fault β} (hfirst : Reads first readFirst)
    (hsecond : Reads second readSecond) (what : String) :
    Reads (Form.pair first second) (Read.pair what readFirst readSecond) := by
  rintro ⟨a, b⟩ v ⟨x, y, hv, ha, hb⟩
  obtain ⟨enough?, hview⟩ := view_of_shows hv
  simp [Read.pair, hview, Shape.view, hfirst ha, hsecond hb, Read.items]

end Values

/-! ### Records -/

/-- A field of a record, the part of the record that it reads, and what the draft has to hold for
the part to be read. -/
structure FieldPart (ν δ : Type) where
  field : Field ν δ
  part : RecordPart ν
  holds : δ → Prop

namespace FieldPart

/-- The field reads its part. -/
structure Sound (e : FieldPart ν δ) : Prop where
  /-- The field has the names of the part. -/
  names : e.part.names = e.field.names
  /-- A value of the part is read, and put into the draft. -/
  reads : ∀ v, e.part.form v → ∃ x, e.field.read v = .ok x ∧ ∀ d, e.holds (e.field.put x d)
  /-- A part that may be left out needs no filling. -/
  omits : e.part.omissible → ∀ d, e.field.get d = none → e.holds d
  /-- What the draft has to hold, it has to hold of this field. -/
  keeps : ∀ d d', e.field.get d' = e.field.get d → e.holds d → e.holds d'

/-- What is left of a part while members are still to come: it is filled and has no member among
them, or it is not filled and has one there if it needs one. -/
def Awaits (e : FieldPart ν δ) (d : δ) (members : List (String × ν)) : Prop :=
  (e.field.filled d = true ∧ e.holds d ∧ ∀ m ∈ members, m.1 ∉ e.part.names) ∨
    (e.field.filled d = false ∧ (e.part.omissible ∨ ∃ m ∈ members, m.1 ∈ e.part.names))

/-- A member whose name belongs to no part is for no field. -/
theorem find?_eq_none {pairs : List (FieldPart ν δ)} (hsound : ∀ e ∈ pairs, e.Sound)
    {key : String} (hkey : ∀ e ∈ pairs, key ∉ e.part.names) :
    (pairs.map (·.field)).find? (·.answers key) = none := by
  simp only [List.find?_eq_none, List.mem_map, forall_exists_index, and_imp,
    forall_apply_eq_imp_iff₂]
  intro e he hanswers
  exact hkey e he ((hsound e he).names ▸ Field.answers_iff.mp hanswers)

/-- After the member of one field, the other fields wait for the members behind it. -/
theorem Awaits.of_apart {e e' : FieldPart ν δ} (hsound : e'.Sound)
    (hapart : e.field.Apart e'.field) {v : ν} {x : e.field.Content} {d : δ} {name : String}
    (hname : name ∈ e.field.names) {rest : List (String × ν)}
    (hawaits : e'.Awaits d ((name, v) :: rest)) : e'.Awaits (e.field.put x d) rest := by
  have hget := hapart.get_put x d
  have hfilled : e'.field.filled (e.field.put x d) = e'.field.filled d := by
    rw [Field.filled, Field.filled, hget]
  rcases hawaits with ⟨hdone, hheld, hnone⟩ | ⟨hopen, homissible | ⟨m, hm, hmname⟩⟩
  · left
    exact ⟨hfilled.trans hdone, hsound.keeps _ _ hget hheld,
      fun m hm => hnone m (List.mem_cons_of_mem _ hm)⟩
  · right
    exact ⟨hfilled.trans hopen, .inl homissible⟩
  · right
    rcases List.mem_cons.mp hm with rfl | hrest
    · rw [hsound.names] at hmname
      exact absurd hmname (hapart.names name hname)
    · exact ⟨hfilled.trans hopen, .inr ⟨m, hrest, hmname⟩⟩

/-- A member for no field changes no field. -/
theorem Awaits.of_extra {e : FieldPart ν δ} {d : δ} {m : String × ν} {rest : List (String × ν)}
    (hname : m.1 ∉ e.part.names) (hawaits : e.Awaits d (m :: rest)) : e.Awaits d rest := by
  rcases hawaits with ⟨hdone, hheld, hnone⟩ | ⟨hopen, homissible | ⟨m', hm', hmname⟩⟩
  · left
    exact ⟨hdone, hheld, fun m' hm' => hnone m' (List.mem_cons_of_mem m hm')⟩
  · right
    exact ⟨hopen, .inl homissible⟩
  · right
    rcases List.mem_cons.mp hm' with rfl | hrest
    · exact absurd hmname hname
    · exact ⟨hopen, .inr ⟨m', hrest, hmname⟩⟩

/-- A field that waits for the next member is not filled yet. -/
theorem Awaits.filled_eq_false {e : FieldPart ν δ} {d : δ} {m : String × ν}
    {rest : List (String × ν)} (hawaits : e.Awaits d (m :: rest)) (hname : m.1 ∈ e.part.names) :
    e.field.filled d = false := by
  rcases hawaits with ⟨-, -, hnone⟩ | ⟨hopen, -⟩
  · exact absurd hname (hnone m (List.mem_cons_self ..))
  · exact hopen

/-- After the next member has been put into the draft, every field waits for the members behind
it. -/
theorem awaits_put {pairs : List (FieldPart ν δ)} (hsound : ∀ e ∈ pairs, e.Sound)
    (hapart : pairs.Pairwise fun e e' => e.field.Apart e'.field) {e : FieldPart ν δ}
    (he : e ∈ pairs) {x : e.field.Content} {d : δ}
    (hfilled : e.field.filled (e.field.put x d) = true) (hholds : e.holds (e.field.put x d))
    {name : String} {v : ν} {rest : List (String × ν)} (hname : name ∈ e.field.names)
    (honce : ∀ m ∈ rest, m.1 ∉ e.part.names)
    (hawaits : ∀ e' ∈ pairs, e'.Awaits d ((name, v) :: rest)) :
    ∀ e' ∈ pairs, e'.Awaits (e.field.put x d) rest := by
  have hsymm : Std.Symm fun e e' : FieldPart ν δ => e.field.Apart e'.field :=
    ⟨fun _ _ h => h.symm⟩
  intro e' he'
  by_cases heq : e = e'
  · subst heq
    exact .inl ⟨hfilled, hholds, honce⟩
  · exact .of_apart (hsound e' he') (hapart.forall he he' heq) hname (hawaits e' he')

/-- Members that describe a record fill its draft. The induction is over the members as they come;
every field waits for what is left of them. -/
theorem fillMembers_of_awaits [Source ν] {record : Record ν δ α} (hlaid : record.LaidOut)
    {pairs : List (FieldPart ν δ)} (hfields : pairs.map (·.field) = record.fields)
    (hsound : ∀ e ∈ pairs, e.Sound) {extra : ν → Prop}
    (hextra : ∀ v, extra v → Source.check v = .ok ()) {members : List (String × ν)} {d : δ}
    (hmember : ∀ m ∈ members, (∃ part ∈ pairs.map (·.part), m.1 ∈ part.names ∧ part.form m.2) ∨
      ((∀ part ∈ pairs.map (·.part), m.1 ∉ part.names) ∧ extra m.2))
    (honce : members.Pairwise fun m m' =>
      ∀ part ∈ pairs.map (·.part), m.1 ∈ part.names → m'.1 ∉ part.names)
    (hawaits : ∀ e ∈ pairs, e.Awaits d members) :
    ∃ d', Record.fillMembers record.fields (members.map fun m => (.ok m.1, m.2)) d = .ok d' ∧
      ∀ e ∈ pairs, e.holds d' := by
  have hmem : ∀ e ∈ pairs, e.field ∈ record.fields := by
    intro e he
    rw [← hfields]
    exact List.mem_map_of_mem he
  have hapart : pairs.Pairwise fun e e' => e.field.Apart e'.field := by
    rw [← List.pairwise_map, hfields]
    exact hlaid.apart
  induction members generalizing d with
  | nil =>
    refine ⟨d, rfl, fun e he => ?_⟩
    rcases hawaits e he with ⟨_, hheld, _⟩ | ⟨hopen, homissible | ⟨m, hm, _⟩⟩
    · exact hheld
    · exact (hsound e he).omits homissible d (Field.filled_eq_false_iff.mp hopen)
    · cases hm
  | cons m rest ih =>
    obtain ⟨name, v⟩ := m
    rw [List.pairwise_cons] at honce
    have hmember' := fun m hm => hmember m (List.mem_cons_of_mem (name, v) hm)
    rcases hmember (name, v) (List.mem_cons_self ..) with ⟨part, hpart, hname, hform⟩ | hnew
    · obtain ⟨e, he, rfl⟩ := List.mem_map.mp hpart
      obtain ⟨x, hread, hholds⟩ := (hsound e he).reads v hform
      have hopen := (hawaits e he).filled_eq_false hname
      have hfield : name ∈ e.field.names := (hsound e he).names ▸ hname
      have hfill : e.field.fill v d = .ok (e.field.put x d) :=
        Field.fill_eq_ok_iff.mpr ⟨x, hread, rfl⟩
      have hrest := awaits_put hsound hapart he (hlaid.filled_of_fill (hmem e he) hfill) (hholds d)
        hfield (fun m hm => honce.1 m hm e.part hpart hname) hawaits
      obtain ⟨last, hlast, hall⟩ := ih hmember' honce.2 hrest
      refine ⟨last, ?_, hall⟩
      rw [List.map_cons, Record.fillMembers, hlaid.find?_of_mem_names (hmem e he) hfield]
      simp only [hopen, Bool.false_eq_true, if_false, hfill]
      exact hlast
    · have hnone : ∀ e ∈ pairs, name ∉ e.part.names :=
        fun e he => hnew.1 e.part (List.mem_map_of_mem he)
      obtain ⟨last, hlast, hall⟩ := ih hmember' honce.2
        fun e he => (hawaits e he).of_extra (hnone e he)
      refine ⟨last, ?_, hall⟩
      rw [List.map_cons, Record.fillMembers, ← hfields, find?_eq_none hsound hnone, hfields]
      simp only [hextra v hnew.2]
      exact hlast

/-- A field that has to be there reads its part if its reader follows the form of the part. -/
theorem Sound.required {field : Field ν δ} {form : Form ν field.Content} {b : field.Content}
    {names : List String} (hreads : Reads form field.read) (hnames : names = field.names)
    (hput : ∀ d, field.get (field.put b d) = some b) :
    Sound ⟨field, { names := names, form := form b }, fun d => field.get d = some b⟩ where
  names := hnames
  reads _ hv := ⟨b, hreads hv, hput⟩
  omits := False.elim
  keeps _ _ := Eq.trans

/-- A field that may be left out, for the value that stands for it then. -/
theorem Sound.omissible {field : Field ν δ} {form : Form ν field.Content}
    {b fallback : field.Content} {names : List String} (hreads : Reads form field.read)
    (hnames : names = field.names) (hput : ∀ d, field.get (field.put b d) = some b) :
    Sound ⟨field, { names := names, form := form b, omissible := b = fallback },
      fun d => (field.get d).getD fallback = b⟩ where
  names := hnames
  reads _ hv := ⟨b, hreads hv, fun d => congrArg (·.getD fallback) (hput d)⟩
  omits hb _ hopen := (congrArg (·.getD fallback) hopen).trans (Eq.symm hb)
  keeps _ _ hget := (congrArg (·.getD fallback) hget).trans

end FieldPart

namespace Record

/-- The fields of a record, each with its part and what the draft has to hold for it. -/
def fieldParts (record : Record ν δ α) (parts : List (RecordPart ν)) (holds : List (δ → Prop)) :
    List (FieldPart ν δ) :=
  List.zipWith3 FieldPart.mk record.fields parts holds

/-- The fields of a record read these parts, one field a part. -/
structure Fits (record : Record ν δ α) (parts : List (RecordPart ν)) (holds : List (δ → Prop)) :
    Prop extends record.LaidOut where
  fields_eq : (record.fieldParts parts holds).map (·.field) = record.fields
  parts_eq : (record.fieldParts parts holds).map (·.part) = parts
  holds_eq : (record.fieldParts parts holds).map (·.holds) = holds
  sound : ∀ e ∈ record.fieldParts parts holds, e.Sound

/-- Reading an object whose members describe a record fills a draft that holds every part, and
builds the record from it. -/
theorem read_of_describes [Source ν] [Shaped ν] {record : Record ν δ α}
    {parts : List (RecordPart ν)} {holds : List (δ → Prop)} (hfits : record.Fits parts holds)
    {extra : ν → Prop}
    (hextra : ∀ v, extra v → Source.check v = .ok ()) {members : List (String × ν)}
    (hmembers : Describes parts extra members) {v : ν} (hv : Shows v (.object members)) :
    ∃ d, record.read v = record.build d ∧ ∀ hold ∈ holds, hold d := by
  have hawaits : ∀ e ∈ record.fieldParts parts holds, e.Awaits record.blank members := by
    intro e he
    have hfield : e.field ∈ record.fields := by
      rw [← hfits.fields_eq]
      exact List.mem_map_of_mem he
    have hpart : e.part ∈ parts := by
      rw [← hfits.parts_eq]
      exact List.mem_map_of_mem he
    have hopen := Field.filled_eq_false_iff.mpr (hfits.blank e.field hfield)
    exact .inr ⟨hopen, hmembers.complete e.part hpart⟩
  obtain ⟨d, hfill, hall⟩ := FieldPart.fillMembers_of_awaits hfits.toLaidOut hfits.fields_eq
    hfits.sound hextra (by rw [hfits.parts_eq]; exact hmembers.member)
    (by rw [hfits.parts_eq]; exact hmembers.once) hawaits
  obtain ⟨enough?, hview⟩ := view_of_shows hv
  refine ⟨d, ?_, ?_⟩
  · simp [Record.read, hview, Shape.view, hfill]
  · intro hold hhold
    rw [← hfits.holds_eq] at hhold
    obtain ⟨e, he, rfl⟩ := List.mem_map.mp hhold
    exact hall e he

/-- A record of a single field is read from every object that describes it. -/
theorem read_single [Source ν] [Shaped ν] (record : Record ν (Option β) α) (meets : β → Prop)
    {key : String} {read : ν → Except Fault β}
    (hfields : record.fields =
      [{ name := key, read := read, put := fun x _ => some x, get := id }])
    (hblank : record.blank = none) {form : ν → Prop}
    (hread : ∀ v, form v → ∃ b, read v = .ok b ∧ meets b) {extra : ν → Prop}
    (hextra : ∀ v, extra v → Source.check v = .ok ()) {members : List (String × ν)}
    (hmembers : Describes [{ names := [key], form := form }] extra members) {v : ν}
    (hv : Shows v (.object members)) : ∃ b, record.read v = record.build (some b) ∧ meets b := by
  have hfits : record.Fits [{ names := [key], form := form }]
      [fun d => ∃ b, d = some b ∧ meets b] := by
    obtain ⟨name, fields, blank, build⟩ := record
    subst hfields hblank
    refine ⟨⟨List.pairwise_singleton _ _, by simp, by simp⟩, rfl, rfl, rfl, ?_⟩
    simp only [fieldParts, List.zipWith3, List.forall_mem_singleton]
    refine ⟨rfl, fun v hform => ?_, False.elim, fun d d' hget => ?_⟩
    · obtain ⟨b, hb, hmeets⟩ := hread v hform
      exact ⟨b, hb, fun _ => ⟨b, rfl, hmeets⟩⟩
    · obtain rfl : d' = d := hget
      exact id
  obtain ⟨d, hbuild, hholds⟩ := read_of_describes hfits hextra hmembers hv
  obtain ⟨b, rfl, hmeets⟩ := hholds _ (List.mem_singleton_self _)
  exact ⟨b, hbuild, hmeets⟩

end Record

end EngineHost.Json
