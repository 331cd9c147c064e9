import EngineHost.Proofs.Json.Inversion
import EngineHost.Proofs.Json.Places

/-!
# What a reader makes of one place

A reader that comes to a part of a container has read what stands before it, reads the part, and
goes on with what follows. So a fault of the part is the fault of the whole once everything before
the part is faultless, whatever follows, and two parts that are read alike make no difference.
Where the reader of the part returns something else, the whole is changed there and nowhere else.
-/

namespace EngineHost.Json

/-- A step from a container to one of its parts: to an item of a list, or to a field of a record,
which has a place in arrays and names in objects. -/
inductive Step where
  | item (index : Nat)
  | field (names : List String) (index : Nat)

/-- What stands in a container before a part of it. -/
inductive Opening (ν : Type) where
  | items (front : List ν)
  | member (front : List (Except Fault String × ν)) (key : Except Fault String)

/-- The part behind an opening is the one that a step leads to. -/
def Opening.Takes {ν : Type} : Opening ν → Step → Prop
  | .items front, .item index => front.length = index
  | .items front, .field _ index => front.length = index
  | .member _ key, .field names _ => ∃ name ∈ names, key = .ok name
  | .member _ _, .item _ => False

/-- Openings along a path in two parts. -/
theorem exists_append_of_takes {ν : Type} {os : List (Opening ν)} {inner outer : List Step}
    (htakes : List.Forall₂ Opening.Takes os (inner ++ outer)) :
    ∃ os₂ os₁, os = os₂ ++ os₁ ∧ List.Forall₂ Opening.Takes os₂ inner ∧
      List.Forall₂ Opening.Takes os₁ outer :=
  ⟨_, _, (List.take_append_drop inner.length os).symm,
    List.forall₂_take_append os inner outer htakes, List.forall₂_drop_append os inner outer htakes⟩

/-- A path of one step takes one opening. -/
theorem exists_of_takes_singleton {ν : Type} {os : List (Opening ν)} {step : Step}
    (htakes : List.Forall₂ Opening.Takes os [step]) : ∃ o, os = [o] ∧ o.Takes step := by
  cases htakes with
  | cons htake hrest =>
    cases hrest
    exact ⟨_, rfl, htake⟩

section Holes

variable {ν : Type} [Source ν]

/-- A container with this opening, as a function of the part behind the opening. -/
inductive Hole : Opening ν → (ν → ν) → Prop where
  | items {front rest : List ν} {next? : Option Fault} {enough? : Nat → Option Fault} {C : ν → ν}
    (hview : ∀ v, Source.view (C v) = .ok (.array (front ++ v :: rest) next? enough?))
    (hnull : ∀ v, Source.isNull (C v) = .ok false) : Hole (.items front) C
  | member {front rest : List (Except Fault String × ν)} {key : Except Fault String}
    {next? : Option Fault} {C : ν → ν}
    (hview : ∀ v, Source.view (C v) = .ok (.object (front ++ (key, v) :: rest) next?))
    (hnull : ∀ v, Source.isNull (C v) = .ok false) : Hole (.member front key) C

/-- Containers inside each other, the innermost first, as a function of the innermost part. -/
inductive Holes : List (Opening ν) → (ν → ν) → Prop where
  | nil : Holes [] fun v => v
  | cons {o : Opening ν} {os : List (Opening ν)} {C D : ν → ν} (hhole : Hole o C)
    (houter : Holes os D) : Holes (o :: os) fun v => D (C v)

/-- A container is never `null`. -/
theorem Hole.isNull {o : Opening ν} {C : ν → ν} (hhole : Hole o C) (v : ν) :
    Source.isNull (C v) = .ok false := by
  cases hhole with
  | items _ hnull => exact hnull v
  | member _ hnull => exact hnull v

/-- What is not `null` is not so inside containers either. -/
theorem Holes.isNull {os : List (Opening ν)} {C : ν → ν} (hholes : Holes os C) {v : ν}
    (hv : Source.isNull v = .ok false) : Source.isNull (C v) = .ok false := by
  induction hholes generalizing v with
  | nil => exact hv
  | cons hhole _ ih => exact ih (hhole.isNull v)

/-- Containers inside each other can be split in two. -/
theorem Holes.append {inner outer : List (Opening ν)} {C : ν → ν}
    (hholes : Holes (inner ++ outer) C) :
    ∃ D E, Holes inner D ∧ Holes outer E ∧ C = fun v => E (D v) := by
  induction inner generalizing C with
  | nil => exact ⟨_, C, .nil, hholes, rfl⟩
  | cons o inner ih =>
    cases hholes with
    | cons hhole hrest =>
      obtain ⟨D, E, hD, hE, rfl⟩ := ih hrest
      exact ⟨_, E, .cons hhole hD, hE, rfl⟩

/-- One container inside nothing is that container. -/
theorem Holes.of_singleton {o : Opening ν} {C : ν → ν} (hholes : Holes [o] C) : Hole o C := by
  cases hholes with
  | cons hhole hrest =>
    cases hrest
    exact hhole

end Holes

section Factors

variable {ν α β δ : Type}

/-- Items before an item, the item, and the items behind it. -/
theorem Read.items_append (item : ν → Except Fault α) (next? : Option Fault)
    (front rest : List ν) (v : ν) :
    Read.items item next? (front ++ v :: rest) =
      (Read.items item none front).bind fun as => (item v).bind fun a =>
        (Read.items item next? rest).map fun bs => as ++ a :: bs := by
  induction front with
  | nil => cases hv : item v <;> simp [Read.items, hv, Except.bind]
  | cons u front ih =>
    rw [List.cons_append, Read.items, Read.items]
    cases item u with
    | error f => rfl
    | ok b =>
      simp only [ih]
      cases Read.items item none front with
      | error f => rfl
      | ok as =>
        cases item v with
        | error f => rfl
        | ok a => cases Read.items item next? rest <;> rfl

namespace Record

/-- Members are filled in one after the other. -/
theorem fillMembers_append [Source ν] (fields : List (Field ν δ))
    (front rest : List (Except Fault String × ν)) (d : δ) :
    fillMembers fields (front ++ rest) d = (fillMembers fields front d).bind
      fun d => fillMembers fields rest d := by
  induction front generalizing d with
  | nil => rfl
  | cons m front ih =>
    obtain ⟨f | name, v⟩ := m
    · rfl
    · rw [List.cons_append, fillMembers, fillMembers]
      cases fields.find? (·.answers name) with
      | none =>
        cases Source.check v with
        | error f => rfl
        | ok _ => exact ih d
      | some field =>
        dsimp only
        split
        · rfl
        · cases field.fill v d with
          | error f => rfl
          | ok longer => exact ih longer

/-- Items for the fields before a field, an item for the field, and the items behind it. -/
theorem fillItems_append (missing : Nat → Fault) (next? : Option Fault) {fields : List (Field ν δ)}
    {front : List ν} {field : Field ν δ} (hfield : fields[front.length]? = some field)
    (index : Nat) (rest : List ν) (v : ν) (d : δ) :
    fillItems missing next? index fields (front ++ v :: rest) d =
      (fillItems missing none index (fields.take front.length) front d).bind fun d =>
        (field.fill v d).bind fun d => fillItems missing next? (index + front.length + 1)
          (fields.drop (front.length + 1)) rest d := by
  induction front generalizing fields index d with
  | nil =>
    cases fields with
    | nil => cases hfield
    | cons first fields =>
      cases hfield
      simp only [List.nil_append, List.length_nil, List.take_zero, fillItems, Except.bind]
      cases field.fill v d <;> rfl
  | cons u front ih =>
    cases fields with
    | nil => cases hfield
    | cons first fields =>
      rw [List.cons_append, fillItems, List.length_cons, List.take_succ_cons, fillItems]
      cases first.fill u d with
      | error f => rfl
      | ok longer =>
        have hindex : index + (front.length + 1) + 1 = index + 1 + front.length + 1 := by omega
        rw [hindex]
        exact ih hfield (index + 1) longer

/-- A field of a record: its names and its place, how it is read, and where the draft keeps it. -/
structure HasField (record : Record ν δ α) (names : List String) (place : Nat)
    (read : ν → Except Fault β) (put : β → δ → δ) : Prop where
  /-- The field answers to its names. -/
  index : ∀ name ∈ names, record.fields.findIdx? (·.answers name) = some place
  /-- What is read is put into the draft. -/
  fill : ∃ field, record.fields[place]? = some field ∧
    ∀ v d, field.fill v d = (read v).map fun x => put x d

section HasField

variable [Source ν] {record : Record ν δ α} {names : List String} {place : Nat}
  {read : ν → Except Fault β} {put : β → δ → δ}

/-- The draft before an item of an array, where these items stand before it. -/
def beforeItem (record : Record ν δ α) (front : List ν) : Except Fault δ :=
  fillItems (fun index => .tooShort index record.name record.fields.length) none 0
    (record.fields.take front.length) front record.blank

/-- The draft before the member for a field, where these members stand before it. -/
def beforeMember (record : Record ν δ α) (place : Nat)
    (front : List (Except Fault String × ν)) : Except Fault δ :=
  (fillMembers record.fields front record.blank).bind fun d =>
    match record.fields[place]? with
    | none => .ok d
    | some field => if field.filled d then .error (.duplicateField field.name) else .ok d

/-- What is made of a draft after an item of an array with a number of items before it. -/
def afterItem (record : Record ν δ α) (count : Nat) (rest : List ν) (next? : Option Fault)
    (enough? : Nat → Option Fault) (d : δ) : Except Fault α :=
  (fillItems (fun index => .tooShort index record.name record.fields.length) next? (count + 1)
      (record.fields.drop (count + 1)) rest d).bind fun d =>
    match enough? (min (count + (rest.length + 1)) record.fields.length) with
    | some f => .error f
    | none => record.build d

/-- What is made of a draft after a member. -/
def afterMember (record : Record ν δ α) (rest : List (Except Fault String × ν))
    (next? : Option Fault) (d : δ) : Except Fault α :=
  (fillMembers record.fields rest d).bind fun d =>
    match next? with
    | some f => .error f
    | none => record.build d

/-- A record with a field in an array. -/
theorem HasField.read_item {front rest : List ν} {next? : Option Fault}
    {enough? : Nat → Option Fault} (hfield : record.HasField names front.length read put) {w v : ν}
    (hview : Source.view w = .ok (.array (front ++ v :: rest) next? enough?)) :
    record.read w = (record.beforeItem front).bind fun d => (read v).bind fun x =>
      record.afterItem front.length rest next? enough? (put x d) := by
  obtain ⟨field, hplace, hfill⟩ := hfield.fill
  simp only [Record.read, hview, fillItems_append _ _ hplace, hfill, beforeItem, afterItem,
    List.length_append, List.length_cons, Nat.zero_add]
  cases fillItems (fun index => .tooShort index record.name record.fields.length) none 0
      (record.fields.take front.length) front record.blank with
  | error f => rfl
  | ok d =>
    cases read v with
    | error f => rfl
    | ok x =>
      simp only [Except.bind, Except.map]
      cases fillItems (fun index => .tooShort index record.name record.fields.length) next?
        (front.length + 1) (record.fields.drop (front.length + 1)) rest (put x d) <;> rfl

/-- A record with a field in an object. -/
theorem HasField.read_member {front rest : List (Except Fault String × ν)} {name : String}
    {next? : Option Fault} (hfield : record.HasField names place read put)
    (hname : name ∈ names) {w v : ν}
    (hview : Source.view w = .ok (.object (front ++ (.ok name, v) :: rest) next?)) :
    record.read w = (record.beforeMember place front).bind fun d => (read v).bind fun x =>
      record.afterMember rest next? (put x d) := by
  obtain ⟨field, hplace, hfill⟩ := hfield.fill
  have hfind := find?_of_findIdx? (hfield.index name hname) hplace
  simp only [Record.read, hview, fillMembers_append, fillMembers, hfind, hfill, beforeMember,
    hplace, afterMember]
  cases fillMembers record.fields front record.blank with
  | error f => rfl
  | ok d =>
    simp only [Except.bind]
    cases field.filled d with
    | true => rfl
    | false =>
      cases read v with
      | error f => rfl
      | ok x =>
        simp only [Except.map, Bool.false_eq_true, if_false]
        cases fillMembers record.fields rest (put x d) <;> rfl

end HasField

end Record

end Factors

section Focus

variable {ν : Type} [Source ν] {α β γ : Type}

/-- Along a path, `read` reads what stands before the place, then the place with `item`, and then
goes on. What it makes of the part before depends on that part alone. -/
def Focus (read : ν → Except Fault α) (path : List Step) (item : ν → Except Fault β) : Prop :=
  ∀ os, List.Forall₂ Opening.Takes os path → ∃ front : Except Fault Unit, ∀ C, Holes os C →
    ∃ k : β → Except Fault α, ∀ v, Source.isNull v = .ok false →
      read (C v) = front.bind fun _ => (item v).bind k

namespace Focus

variable {read : ν → Except Fault α} {mid : ν → Except Fault β} {item : ν → Except Fault γ}
  {outer inner : List Step}

/-- A reader reads the whole of what it reads. -/
theorem refl (read : ν → Except Fault α) : Focus read [] read := by
  intro os htakes
  cases htakes
  refine ⟨.ok (), fun C hholes => ⟨.ok, fun v _ => ?_⟩⟩
  cases hholes
  cases read v <;> rfl

/-- Paths to what is read can be composed. -/
theorem trans (houter : Focus read outer mid) (hinner : Focus mid inner item) :
    Focus read (inner ++ outer) item := by
  intro os htakes
  obtain ⟨os₂, os₁, rfl, htakes₂, htakes₁⟩ := exists_append_of_takes htakes
  obtain ⟨front₁, hread⟩ := houter os₁ htakes₁
  obtain ⟨front₂, hmid⟩ := hinner os₂ htakes₂
  refine ⟨front₁.bind fun _ => front₂, fun C hholes => ?_⟩
  obtain ⟨D, E, hD, hE, rfl⟩ := hholes.append
  obtain ⟨k₁, hk₁⟩ := hread E hE
  obtain ⟨k₂, hk₂⟩ := hmid D hD
  refine ⟨fun c => (k₂ c).bind k₁, fun v hv => ?_⟩
  rw [hk₁ (D v) (hD.isNull hv), hk₂ v hv]
  cases front₁ <;> cases front₂ <;> cases item v <;> rfl

/-- What may be `null` is read along the same paths when it is not. -/
theorem optional (hfocus : Focus mid inner item) : Focus (Read.optional mid) inner item := by
  intro os htakes
  obtain ⟨front, hread⟩ := hfocus os htakes
  refine ⟨front, fun C hholes => ?_⟩
  obtain ⟨k, hk⟩ := hread C hholes
  refine ⟨fun c => (k c).map some, fun v hv => ?_⟩
  simp only [Read.optional, hholes.isNull hv, hk v hv]
  cases front <;> cases item v <;> rfl

/-- What is made of the result changes nothing on the way. -/
theorem map (hfocus : Focus mid inner item) (g : β → α) :
    Focus (fun v => (mid v).map g) inner item := by
  intro os htakes
  obtain ⟨front, hread⟩ := hfocus os htakes
  refine ⟨front, fun C hholes => ?_⟩
  obtain ⟨k, hk⟩ := hread C hholes
  refine ⟨fun c => (k c).map g, fun v hv => ?_⟩
  simp only [hk v hv]
  cases front <;> cases item v <;> rfl

/-- What follows may use what was read before, since that is the same in all containers with one
opening. -/
theorem exists_bind_eq {σ : Type} (before : Except Fault σ) (k : σ → γ → Except Fault α) :
    ∃ k', ∀ x : Except Fault γ, before.bind (fun d => x.bind (k d)) =
      (before.map fun _ => ()).bind fun _ => x.bind k' := by
  cases before with
  | error f => exact ⟨fun _ => .error f, fun x => rfl⟩
  | ok d => exact ⟨k d, fun x => rfl⟩

/-- The items of a list are read in their order. -/
theorem list (item : ν → Except Fault α) (index : Nat) :
    Focus (Read.list item) [.item index] item := by
  intro os htakes
  obtain ⟨o, rfl, hindex⟩ := exists_of_takes_singleton htakes
  cases o with
  | member front key => exact absurd hindex id
  | items front =>
    refine ⟨(Read.items item none front).map fun _ => (), fun C hholes => ?_⟩
    cases hholes.of_singleton with
    | @items _ rest next? _ _ hview _ =>
      obtain ⟨k, hk⟩ := exists_bind_eq (Read.items item none front) fun as a =>
        (Read.items item next? rest).map fun bs => as ++ a :: bs
      refine ⟨k, fun v _ => ?_⟩
      simp only [Read.list, hview, Read.items_append, hk]

/-- A field is read once everything before it has been read. -/
theorem field {δ : Type} {record : Record ν δ α} {names : List String} {place : Nat}
    {put : γ → δ → δ} (hfield : record.HasField names place item put) :
    Focus record.read [.field names place] item := by
  intro os htakes
  obtain ⟨o, rfl, htake⟩ := exists_of_takes_singleton htakes
  cases o with
  | items front =>
    obtain rfl : front.length = place := htake
    refine ⟨(record.beforeItem front).map fun _ => (), fun C hholes => ?_⟩
    cases hholes.of_singleton with
    | items hview _ =>
      obtain ⟨k, hk⟩ := exists_bind_eq (record.beforeItem front) _
      exact ⟨k, fun v _ => (hfield.read_item (hview v)).trans (hk _)⟩
  | member front key =>
    obtain ⟨name, hname, rfl⟩ := htake
    refine ⟨(record.beforeMember place front).map fun _ => (), fun C hholes => ?_⟩
    cases hholes.of_singleton with
    | member hview _ =>
      obtain ⟨k, hk⟩ := exists_bind_eq (record.beforeMember place front) _
      exact ⟨k, fun v _ => (hfield.read_member hname (hview v)).trans (hk _)⟩

/-- Where a value is read without a fault, so is the place in it; and a fault at the place is met
before anything that follows. -/
theorem fault_of_holes (hfocus : Focus read outer mid) {os : List (Opening ν)}
    (htakes : List.Forall₂ Opening.Takes os outer) {C C' : ν → ν} (hC : Holes os C)
    (hC' : Holes os C') {v v' : ν} (hv : Source.isNull v = .ok false)
    (hv' : Source.isNull v' = .ok false) {a : α} (hread : read (C v) = .ok a) :
    (∃ b, mid v = .ok b) ∧ ∀ f, mid v' = .error f → read (C' v') = .error f := by
  obtain ⟨front, hfront⟩ := hfocus os htakes
  obtain ⟨k, hk⟩ := hfront C hC
  obtain ⟨k', hk'⟩ := hfront C' hC'
  rw [hk v hv] at hread
  rw [hk' v' hv']
  cases front with
  | error f => cases hread
  | ok _ =>
    constructor
    · cases hmid : mid v with
      | error f => simp [hmid, Except.bind] at hread
      | ok b => exact ⟨b, rfl⟩
    · intro f hf
      simp only [hf, Except.bind]

end Focus

end Focus

/-! ### Places in a tree -/

/-- What a reader sees of a container before the place at which it is open. -/
def Frame.opening : Frame → Opening Node
  | .items done => .items done.reverse
  | .member done key => .member (seenMembers done.reverse) key.text

/-- The place inside these open containers is the one that a path leads to, from the inside out. -/
def Along (stack : List Frame) (path : List Step) : Prop :=
  List.Forall₂ Opening.Takes (stack.map Frame.opening) path

/-- A path in two parts leads through two parts of the open containers. -/
theorem Along.exists_append {stack : List Frame} {inner outer : List Step}
    (halong : Along stack (inner ++ outer)) :
    ∃ inside outside, stack = inside ++ outside ∧ Along inside inner ∧ Along outside outer := by
  obtain ⟨os₂, os₁, hstack, htakes₂, htakes₁⟩ := exists_append_of_takes halong
  obtain ⟨inside, outside, rfl, rfl, rfl⟩ := List.map_eq_append_iff.mp hstack
  exact ⟨inside, outside, rfl, htakes₂, htakes₁⟩

/-- Containers along a composed path can be split where the paths meet. -/
theorem Along.exists_append_surrounds {surrounds : List Surround} {inner outer : List Step}
    (halong : Along (surrounds.map Surround.frame) (inner ++ outer)) :
    ∃ inside outside, surrounds = inside ++ outside ∧ Along (inside.map Surround.frame) inner ∧
      Along (outside.map Surround.frame) outer := by
  obtain ⟨_, _, hstack, hinner, houter⟩ := halong.exists_append
  obtain ⟨inside, outside, rfl, rfl, rfl⟩ := List.map_eq_append_iff.mp hstack
  exact ⟨inside, outside, rfl, hinner, houter⟩

/-- An array is a container of any of its items. -/
theorem hole_array (front rest : List Node) (ending : ArrayEnd) :
    Hole (.items front) fun v => .array (front ++ v :: rest) ending := by
  have hlength : ∀ v : Node, (front ++ v :: rest).length = front.length + (rest.length + 1) := by
    simp
  have hview : ∀ v, Source.view (Node.array (front ++ v :: rest) ending) =
      .ok (.array (front ++ v :: rest) ending.next? fun count =>
        if count < front.length + (rest.length + 1) then some .trailingCharacters
        else ending.enough?) := by
    intro v
    simp only [Source.view, Node.view, hlength]
  exact .items hview fun _ => rfl

/-- An object is a container of any of its members. -/
theorem hole_object (front rest : List (Quoted × Node)) (key : Quoted) (ending : ObjectEnd) :
    Hole (.member (seenMembers front) key.text)
      fun v => .object (front ++ (key, v) :: rest) ending := by
  have hview : ∀ v, Source.view (Node.object (front ++ (key, v) :: rest) ending) =
      .ok (.object (seenMembers front ++ (key.text, v) :: seenMembers rest) ending.next?) := by
    intro v
    simp only [Source.view, Node.view, seenMembers, List.map_append, List.map_cons]
  exact .member hview fun _ => rfl

/-- What a frame holds stands behind its opening. -/
theorem Frame.Holds.exists_hole {frame : Frame} {outer v : Node} (hholds : frame.Holds outer v) :
    ∃ C, Hole frame.opening C ∧ outer = C v := by
  cases hholds with
  | items => exact ⟨_, hole_array _ _ _, rfl⟩
  | member => exact ⟨_, hole_object _ _ _ _, rfl⟩

/-- What stands inside open containers stands behind their openings. -/
theorem At.exists_holes {stack : List Frame} {root v : Node} (hat : At stack root v) :
    ∃ C, Holes (stack.map Frame.opening) C ∧ root = C v := by
  induction hat with
  | root => exact ⟨_, .nil, rfl⟩
  | inside _ hholds ih =>
    obtain ⟨D, hD, rfl⟩ := ih
    obtain ⟨C, hC, rfl⟩ := hholds.exists_hole
    exact ⟨_, .cons hC hD, rfl⟩

/-- A tree is not `null` if what stands at some place in it is not. -/
theorem At.isNull {stack : List Frame} {root v : Node} (hat : At stack root v)
    (hv : v.isNull = .ok false) : root.isNull = .ok false := by
  obtain ⟨C, hC, rfl⟩ := hat.exists_holes
  exact hC.isNull hv

/-- What surrounds a place is a container of it. -/
theorem Surround.hole (s : Surround) : Hole s.frame.opening s.fill := by
  cases s with
  | items done rest => exact hole_array done.reverse rest .closed
  | member done key rest => exact hole_object done.reverse rest key .closed

/-- A tree with a value at a place is made of the containers around the place. -/
theorem holes_plug (surrounds : List Surround) :
    Holes ((surrounds.map Surround.frame).map Frame.opening) (plug surrounds) := by
  induction surrounds with
  | nil => exact .nil
  | cons s outer ih =>
    change Holes _ fun v => plug outer (s.fill v)
    exact .cons s.hole ih

section Nodes

variable {α β : Type} {read : Node → Except Fault α} {item : Node → Except Fault β}
  {path : List Step}

/-- Where a tree is read without a fault, so is the place in it; and a fault at the place is met
before anything that follows. -/
theorem Focus.fault_of_at (hfocus : Focus read path item) {stack : List Frame}
    (halong : Along stack path) {root root' v v' : Node} (hat : At stack root v)
    (hat' : At stack root' v') (hv : v.isNull = .ok false) (hv' : v'.isNull = .ok false) {a : α}
    (hread : read root = .ok a) :
    (∃ b, item v = .ok b) ∧ ∀ f, item v' = .error f → read root' = .error f := by
  obtain ⟨C, hC, rfl⟩ := hat.exists_holes
  obtain ⟨C', hC', rfl⟩ := hat'.exists_holes
  exact hfocus.fault_of_holes halong hC hC' hv hv' hread

/-- Two values that are read alike make no difference. -/
theorem Focus.read_plug_eq (hfocus : Focus read path item) {surrounds : List Surround}
    (halong : Along (surrounds.map Surround.frame) path) {v v' : Node}
    (hv : v.isNull = .ok false) (hv' : v'.isNull = .ok false) (hitem : item v = item v') :
    read (plug surrounds v) = read (plug surrounds v') := by
  obtain ⟨front, hfront⟩ := hfocus _ halong
  obtain ⟨k, hk⟩ := hfront _ (holes_plug surrounds)
  rw [hk v hv, hk v' hv', hitem]

end Nodes

end EngineHost.Json
