import EngineHost.Proofs.Json.Focus

/-!
# A change at one place

Where the value at one place of a text is replaced by another that is read without a fault, the
whole is read without a fault too, and what is read differs at that place alone.
-/

namespace EngineHost.Json

section Records

variable {ν α β δ : Type}

/-- As many items are read as are there. -/
theorem Read.length_of_items {item : ν → Except Fault α} {next? : Option Fault} {vs : List ν}
    {as : List α} (hitems : Read.items item next? vs = .ok as) : as.length = vs.length := by
  induction vs generalizing as with
  | nil =>
    cases next? with
    | some f => cases hitems
    | none =>
      cases hitems
      rfl
  | cons v rest ih =>
    rw [Read.items] at hitems
    cases hv : item v with
    | error f => simp [hv] at hitems
    | ok a =>
      rw [hv] at hitems
      obtain ⟨bs, hrest, rfl⟩ := map_eq_ok_iff.mp hitems
      rw [List.length_cons, List.length_cons, ih hrest]

namespace Record

/-- A field that neither sees nor touches what `put` puts into the draft. -/
structure Commutes (put : β → δ → δ) (field : Field ν δ) : Prop where
  fill : ∀ v x d, field.fill v (put x d) = (field.fill v d).map (put x)
  filled : ∀ x d, field.filled (put x d) = field.filled d

/-- Fields that are kept in different parts of the draft. -/
theorem commutes_of_apart {field other : Field ν δ} (hapart : field.Apart other) :
    Commutes field.put other where
  fill v x d := by
    unfold Field.fill
    cases other.read v with
    | error f => rfl
    | ok y => exact congrArg Except.ok (hapart.put_put x y d)
  filled x d := by rw [Field.filled, Field.filled, hapart.get_put]

/-- A field that the record keeps as it is read, apart from the others. -/
structure Stores (record : Record ν δ α) (names : List String) (place : Nat)
    (read : ν → Except Fault β) (put : β → δ → δ) (amend : (β → β) → α → α) : Prop
    extends record.HasField names place read put where
  /-- The draft knows that it holds the field. -/
  filled : ∀ field, record.fields[place]? = some field → ∀ x d, field.filled (put x d) = true
  /-- No other field has to do with it. -/
  others : ∀ i other, record.fields[i]? = some other → i ≠ place → Commutes put other
  /-- The record changes with the field. -/
  build : ∀ x d a f, record.build (put x d) = .ok a → record.build (put (f x) d) = .ok (amend f a)

/-- A field of a record with a draft for all its fields, given how the record changes with it. -/
theorem LaidOut.stores {record : Record ν δ α} (hlaid : record.LaidOut) {names : List String}
    {place : Nat} {name : String} {otherName : Option String} {optional : Bool}
    {read : ν → Except Fault β} {put : β → δ → δ} {get : δ → Option β}
    {amend : (β → β) → α → α}
    (hfield : record.fields[place]? = some { name, otherName, optional, read, put, get })
    (hnames : names = name :: otherName.toList)
    (hbuild : ∀ x d a f, record.build (put x d) = .ok a →
      record.build (put (f x) d) = .ok (amend f a)) :
    record.Stores names place read put amend where
  index := by
    subst hnames
    exact fun key hkey => hlaid.findIdx?_of_mem_names hfield hkey
  fill := ⟨_, hfield, fun _ _ => rfl⟩
  filled := by
    intro field hplace x d
    obtain rfl := Option.some.inj (hfield.symm.trans hplace)
    exact Option.isSome_of_eq_some (hlaid.get_put _ (List.mem_of_getElem? hfield) x d)
  others i other hother hi := commutes_of_apart (hlaid.apart_of_ne hfield hother (Ne.symm hi))
  build := hbuild

section Stores

variable [Source ν] {record : Record ν δ α} {names : List String} {place : Nat}
  {read : ν → Except Fault β} {put : β → δ → δ} {amend : (β → β) → α → α}

/-- Members behind a field are read without looking at what it holds. -/
theorem Stores.fillMembers_put (hstores : record.Stores names place read put amend)
    {members : List (Except Fault String × ν)} {x : β} {d d' : δ}
    (hfill : fillMembers record.fields members (put x d) = .ok d') :
    ∃ e, d' = put x e ∧ ∀ y, fillMembers record.fields members (put y d) = .ok (put y e) := by
  induction members generalizing d with
  | nil =>
    cases hfill
    exact ⟨d, rfl, fun y => rfl⟩
  | cons m rest ih =>
    obtain ⟨f | name, v⟩ := m
    · cases hfill
    · simp only [fillMembers] at hfill ⊢
      split at hfill
      case h_1 =>
        split at hfill
        case h_1 => cases hfill
        case h_2 => exact ih hfill
      case h_2 other hfind =>
        split at hfill
        case isTrue => cases hfill
        case isFalse hempty =>
          obtain ⟨i, hi⟩ := List.mem_iff_getElem?.mp (List.mem_of_find?_eq_some hfind)
          have hplace : i ≠ place := by
            rintro rfl
            exact hempty (hstores.filled other hi x d)
          have hother := hstores.others i other hi hplace
          rw [hother.filled] at hempty
          simp only [hother.fill] at hfill
          cases hlonger : other.fill v d with
          | error f => simp [hlonger, Except.map] at hfill
          | ok longer =>
            simp only [hlonger, Except.map] at hfill
            obtain ⟨e, rfl, hrest⟩ := ih hfill
            refine ⟨e, rfl, fun y => ?_⟩
            simp only [hother.filled, hempty, hother.fill, hlonger, Except.map, if_false,
              Bool.false_eq_true]
            exact hrest y

omit [Source ν] in
/-- Items behind a field are read without looking at what it holds. -/
theorem fillItems_put {missing : Nat → Fault} {next? : Option Fault} {fields : List (Field ν δ)}
    (hfields : ∀ other ∈ fields, Commutes put other) {index : Nat} {items : List ν} {x : β}
    {d d' : δ} (hfill : fillItems missing next? index fields items (put x d) = .ok d') :
    ∃ e, d' = put x e ∧
      ∀ y, fillItems missing next? index fields items (put y d) = .ok (put y e) := by
  induction fields generalizing index items d with
  | nil =>
    simp only [fillItems] at hfill
    cases hfill
    exact ⟨d, rfl, fun y => by simp only [fillItems]⟩
  | cons first fields ih =>
    rw [List.forall_mem_cons] at hfields
    cases items with
    | nil =>
      simp only [fillItems] at hfill ⊢
      split at hfill
      case h_1 => cases hfill
      case h_2 =>
        split at hfill
        case isTrue hoptional =>
          simp only [hoptional, if_true]
          exact ih hfields.2 hfill
        case isFalse => cases hfill
    | cons item items =>
      simp only [fillItems, hfields.1.fill] at hfill ⊢
      cases hlonger : first.fill item d with
      | error f => simp [hlonger, Except.map] at hfill
      | ok longer =>
        simp only [hlonger, Except.map] at hfill ⊢
        exact ih hfields.2 hfill

/-- Another value of the field changes what is read of an object accordingly. -/
theorem Stores.afterMember_put (hstores : record.Stores names place read put amend)
    {rest : List (Except Fault String × ν)} {next? : Option Fault} {x : β} {d : δ} {a : α}
    (hafter : record.afterMember rest next? (put x d) = .ok a) (f : β → β) :
    record.afterMember rest next? (put (f x) d) = .ok (amend f a) := by
  unfold afterMember at hafter ⊢
  cases hfill : fillMembers record.fields rest (put x d) with
  | error g => simp [hfill, Except.bind] at hafter
  | ok d' =>
    obtain ⟨e, rfl, hall⟩ := hstores.fillMembers_put hfill
    simp only [hfill, hall, Except.bind] at hafter ⊢
    cases next? with
    | some g => cases hafter
    | none => exact hstores.build x e a f hafter

omit [Source ν] in
/-- Another value of the field changes what is read of an array accordingly. -/
theorem Stores.afterItem_put (hstores : record.Stores names place read put amend)
    {rest : List ν} {next? : Option Fault} {enough? : Nat → Option Fault} {x : β} {d : δ} {a : α}
    (hafter : record.afterItem place rest next? enough? (put x d) = .ok a) (f : β → β) :
    record.afterItem place rest next? enough? (put (f x) d) = .ok (amend f a) := by
  have hothers : ∀ other ∈ record.fields.drop (place + 1), Commutes put other := by
    intro other hother
    obtain ⟨i, hi⟩ := List.mem_iff_getElem?.mp hother
    rw [List.getElem?_drop] at hi
    exact hstores.others _ other hi (by omega)
  unfold afterItem at hafter ⊢
  cases hfill : fillItems (fun index => .tooShort index record.name record.fields.length) next?
      (place + 1) (record.fields.drop (place + 1)) rest (put x d) with
  | error g => simp [hfill, Except.bind] at hafter
  | ok d' =>
    obtain ⟨e, rfl, hall⟩ := fillItems_put hothers hfill
    simp only [hfill, hall, Except.bind] at hafter ⊢
    cases henough : enough? (min (place + (rest.length + 1)) record.fields.length) with
    | some g => simp [henough] at hafter
    | none =>
      simp only [henough] at hafter
      exact hstores.build x e a f hafter

end Stores

/-- What a record's reader returns has been built from a draft. -/
theorem exists_build_of_read [Source ν] {record : Record ν δ α} {v : ν} {a : α}
    (hread : record.read v = .ok a) : ∃ d, record.build d = .ok a := by
  unfold Record.read at hread
  split at hread
  case h_1 => cases hread
  case h_2 =>
    dsimp only at hread
    split at hread
    case h_1 => cases hread
    case h_2 d _ =>
      split at hread
      case h_1 => cases hread
      case h_2 => exact ⟨d, hread⟩
  case h_3 =>
    split at hread
    case h_1 => cases hread
    case h_2 d _ =>
      split at hread
      case h_1 => cases hread
      case h_2 => exact ⟨d, hread⟩
  case h_4 => cases hread

end Record

end Records

section Updates

variable {ν : Type} [Source ν] {α β γ : Type}

/-- Along a path, `read` returns something only where `item` does, and where `item` returns
something else instead, the whole changes accordingly. -/
def Updates (read : ν → Except Fault α) (path : List Step) (item : ν → Except Fault β)
    (amend : (β → β) → α → α) : Prop :=
  ∀ os C, List.Forall₂ Opening.Takes os path → Holes os C → ∀ v a,
    Source.isNull v = .ok false → read (C v) = .ok a → ∃ b, item v = .ok b ∧
      ∀ v' f, Source.isNull v' = .ok false → item v' = .ok (f b) → read (C v') = .ok (amend f a)

namespace Updates

variable {read : ν → Except Fault α} {mid : ν → Except Fault β} {item : ν → Except Fault γ}
  {outer inner : List Step} {amend : (β → β) → α → α} {amend' : (γ → γ) → β → β}

/-- What a reader reads changes as a whole. -/
theorem refl (read : ν → Except Fault α) : Updates read [] read fun f a => f a := by
  intro os C htakes hholes v a _ hread
  cases htakes
  cases hholes
  exact ⟨a, hread, fun v' f _ hv' => hv'⟩

/-- Changes along composed paths are composed. -/
theorem trans (houter : Updates read outer mid amend) (hinner : Updates mid inner item amend') :
    Updates read (inner ++ outer) item fun f => amend (amend' f) := by
  intro os C htakes hholes v a hv hread
  obtain ⟨os₂, os₁, rfl, htakes₂, htakes₁⟩ := exists_append_of_takes htakes
  obtain ⟨D, E, hD, hE, rfl⟩ := hholes.append
  obtain ⟨m, hmid, hreads⟩ := houter os₁ E htakes₁ hE (D v) a (hD.isNull hv) hread
  obtain ⟨c, hitem, hmids⟩ := hinner os₂ D htakes₂ hD v m hv hmid
  refine ⟨c, hitem, fun v' f hv' hitem' => ?_⟩
  exact hreads (D v') (amend' f) (hD.isNull hv') (hmids v' f hv' hitem')

/-- What may be `null` changes along the same paths when it is not. -/
theorem optional (hupdates : Updates mid inner item amend') :
    Updates (Read.optional mid) inner item fun f => Option.map (amend' f) := by
  intro os C htakes hholes v a hv hread
  simp only [Read.optional, hholes.isNull hv] at hread
  obtain ⟨m, hmid, rfl⟩ := map_eq_ok_iff.mp hread
  obtain ⟨c, hitem, hmids⟩ := hupdates os C htakes hholes v m hv hmid
  refine ⟨c, hitem, fun v' f hv' hitem' => ?_⟩
  simp only [Read.optional, hholes.isNull hv', hmids v' f hv' hitem', Except.map, Option.map_some]

/-- What is made of the result changes with it. -/
theorem map (hupdates : Updates mid inner item amend') {g : β → α} {amend : (γ → γ) → α → α}
    (hamend : ∀ f m, g (amend' f m) = amend f (g m)) :
    Updates (fun v => (mid v).map g) inner item amend := by
  intro os C htakes hholes v a hv hread
  obtain ⟨m, hmid, rfl⟩ := map_eq_ok_iff.mp hread
  obtain ⟨c, hitem, hmids⟩ := hupdates os C htakes hholes v m hv hmid
  refine ⟨c, hitem, fun v' f hv' hitem' => ?_⟩
  simp only [hmids v' f hv' hitem', Except.map, hamend]

/-- A list changes at the index of the item that does. -/
theorem list (item : ν → Except Fault α) (index : Nat) :
    Updates (Read.list item) [.item index] item fun f as => as.modify index f := by
  intro os C htakes hholes v a _ hread
  obtain ⟨o, rfl, hindex⟩ := exists_of_takes_singleton htakes
  cases hholes.of_singleton with
  | member hview _ => exact absurd hindex id
  | @items front rest next? _ _ hview _ =>
    obtain rfl : front.length = index := hindex
    simp only [Read.list, hview, Read.items_append] at hread ⊢
    cases hfront : Read.items item none front with
    | error f => simp [hfront, Except.bind] at hread
    | ok as =>
      cases hv : item v with
      | error f => simp [hfront, hv, Except.bind] at hread
      | ok b =>
        simp only [hfront, hv, Except.bind] at hread
        obtain ⟨bs, hrest, rfl⟩ := map_eq_ok_iff.mp hread
        refine ⟨b, rfl, fun v' f _ hv' => ?_⟩
        have hmodify : (as ++ b :: bs).modify front.length f = as ++ f b :: bs := by
          rw [← Read.length_of_items hfront, List.modify_eq_take_cons_drop (by simp)]
          simp
        simp only [hv', hrest, Except.bind, Except.map, hmodify]

/-- A record changes in the field that does. -/
theorem field {δ : Type} {record : Record ν δ α} {names : List String} {place : Nat}
    {put : γ → δ → δ} {amend : (γ → γ) → α → α}
    (hstores : record.Stores names place item put amend) :
    Updates record.read [.field names place] item amend := by
  intro os C htakes hholes v a _ hread
  obtain ⟨o, rfl, htake⟩ := exists_of_takes_singleton htakes
  cases hholes.of_singleton with
  | @items front rest next? enough? _ hview _ =>
    obtain rfl : front.length = place := htake
    rw [hstores.read_item (hview v)] at hread
    cases hfront : record.beforeItem front with
    | error f => simp [hfront, Except.bind] at hread
    | ok d =>
      cases hv : item v with
      | error f => simp [hfront, hv, Except.bind] at hread
      | ok x =>
        simp only [hfront, hv, Except.bind] at hread
        refine ⟨x, rfl, fun v' f _ hv' => ?_⟩
        rw [hstores.read_item (hview v'), hfront, hv']
        exact hstores.afterItem_put hread f
  | @member front rest key next? _ hview _ =>
    obtain ⟨name, hname, rfl⟩ := htake
    rw [hstores.read_member hname (hview v)] at hread
    cases hfront : record.beforeMember place front with
    | error f => simp [hfront, Except.bind] at hread
    | ok d =>
      cases hv : item v with
      | error f => simp [hfront, hv, Except.bind] at hread
      | ok x =>
        simp only [hfront, hv, Except.bind] at hread
        refine ⟨x, rfl, fun v' f _ hv' => ?_⟩
        rw [hstores.read_member hname (hview v'), hfront, hv']
        exact hstores.afterMember_put hread f

end Updates

/-- Along a path, `read` comes to a place that `item` reads: it meets the faults of the place, and
where the place is read as something else, the whole changes accordingly. -/
structure Reaches (read : ν → Except Fault α) (path : List Step) (item : ν → Except Fault β)
    (amend : (β → β) → α → α) : Prop where
  focus : Focus read path item
  updates : Updates read path item amend

namespace Reaches

variable {read : ν → Except Fault α} {mid : ν → Except Fault β} {item : ν → Except Fault γ}
  {outer inner : List Step} {amend : (β → β) → α → α} {amend' : (γ → γ) → β → β}

/-- A reader comes to the whole of what it reads. -/
theorem refl (read : ν → Except Fault α) : Reaches read [] read fun f a => f a :=
  ⟨.refl read, .refl read⟩

/-- A reader comes to a place along composed paths. -/
theorem trans (houter : Reaches read outer mid amend) (hinner : Reaches mid inner item amend') :
    Reaches read (inner ++ outer) item fun f => amend (amend' f) :=
  ⟨houter.focus.trans hinner.focus, houter.updates.trans hinner.updates⟩

/-- A reader of what may be `null` comes to the same places when it is not. -/
theorem optional (hreaches : Reaches mid inner item amend') :
    Reaches (Read.optional mid) inner item fun f => Option.map (amend' f) :=
  ⟨hreaches.focus.optional, hreaches.updates.optional⟩

/-- A reader whose result is converted comes to the same places. -/
theorem map (hreaches : Reaches mid inner item amend') {g : β → α} {amend : (γ → γ) → α → α}
    (hamend : ∀ f m, g (amend' f m) = amend f (g m)) :
    Reaches (fun v => (mid v).map g) inner item amend :=
  ⟨hreaches.focus.map g, hreaches.updates.map hamend⟩

/-- A reader of lists comes to every item. -/
theorem list (item : ν → Except Fault α) (index : Nat) :
    Reaches (Read.list item) [.item index] item fun f as => as.modify index f :=
  ⟨.list item index, .list item index⟩

/-- A reader of records comes to every field that the record keeps. -/
theorem field {δ : Type} {record : Record ν δ α} {names : List String} {place : Nat}
    {put : γ → δ → δ} {amend : (γ → γ) → α → α}
    (hstores : record.Stores names place item put amend) :
    Reaches record.read [.field names place] item amend :=
  ⟨.field hstores.toHasField, .field hstores⟩

end Reaches

end Updates

section Pairs

variable {ν : Type} [Source ν] {α β : Type}

/-- What follows the two items of a pair. -/
def Read.pairEnd (what : String) (next? : Option Fault) (surplus : List ν) (p : α × β) :
    Except Fault (α × β) :=
  (Read.items Source.check next? surplus).bind fun
    | [] => .ok p
    | _ :: more => .error (Read.pairFault what (3 + more.length))

/-- The end of a pair passes both items on, and does not look at them. -/
theorem Read.pairEnd_of_ok {what : String} {next? : Option Fault} {surplus : List ν}
    {p q : α × β} (hend : Read.pairEnd what next? surplus p = .ok q) :
    q = p ∧ ∀ p' : α × β, Read.pairEnd what next? surplus p' = .ok p' := by
  unfold Read.pairEnd at hend ⊢
  cases hitems : Read.items Source.check next? surplus with
  | error f => simp [hitems, Except.bind] at hend
  | ok checked =>
    cases checked with
    | nil =>
      simp only [hitems, Except.bind, Except.ok.injEq] at hend
      exact ⟨hend.symm, fun p' => rfl⟩
    | cons _ more => simp [hitems, Except.bind] at hend

/-- A pair is read from the first two items of an array, and then its end. -/
theorem Read.pair_of_view {what : String} {first : ν → Except Fault α} {second : ν → Except Fault β}
    {v x y : ν} {surplus : List ν} {next? : Option Fault} {enough? : Nat → Option Fault}
    (hview : Source.view v = .ok (.array (x :: y :: surplus) next? enough?)) :
    Read.pair what first second v = (first x).bind fun a => (second y).bind fun b =>
      Read.pairEnd what next? surplus (a, b) := by
  simp only [Read.pair, hview, Read.pairEnd]
  cases first x with
  | error f => rfl
  | ok a =>
    cases hy : second y with
    | error f => simp only [hy, Except.bind]
    | ok b =>
      cases hsurplus : Read.items Source.check next? surplus with
      | error f => simp only [hy, hsurplus, Except.bind]
      | ok checked => cases checked <;> simp only [hy, hsurplus, Except.bind]

/-- An array of one item is read no further than its end. -/
theorem Read.pair_of_view_short {what : String} {first : ν → Except Fault α}
    {second : ν → Except Fault β} {v x : ν} {next? : Option Fault} {enough? : Nat → Option Fault}
    (hview : Source.view v = .ok (.array [x] next? enough?)) :
    Read.pair what first second v = (first x).bind fun _ =>
      .error (next?.getD (Read.pairFault what 1)) := by
  simp only [Read.pair, hview]
  cases first x <;> rfl

namespace Reaches

variable (what : String) (first : ν → Except Fault α) (second : ν → Except Fault β)

/-- A reader of pairs comes to the first item. -/
theorem pairFirst :
    Reaches (Read.pair what first second) [.item 0] first fun f p => (f p.1, p.2) where
  focus := by
    intro os htakes
    obtain ⟨o, rfl, hindex⟩ := exists_of_takes_singleton htakes
    refine ⟨.ok (), fun C hholes => ?_⟩
    cases hholes.of_singleton with
    | member hview _ => exact absurd hindex id
    | @items front rest next? _ _ hview _ =>
      obtain rfl := List.length_eq_zero_iff.mp hindex
      cases rest with
      | nil => exact ⟨_, fun v _ => Read.pair_of_view_short (hview v)⟩
      | cons y surplus => exact ⟨_, fun v _ => Read.pair_of_view (hview v)⟩
  updates := by
    intro os C htakes hholes v p _ hread
    obtain ⟨o, rfl, hindex⟩ := exists_of_takes_singleton htakes
    cases hholes.of_singleton with
    | member hview _ => exact absurd hindex id
    | @items front rest next? _ _ hview _ =>
      obtain rfl := List.length_eq_zero_iff.mp hindex
      cases hv : first v with
      | error f =>
        cases rest with
        | nil => simp [Read.pair_of_view_short (hview v), hv, Except.bind] at hread
        | cons y surplus => simp [Read.pair_of_view (hview v), hv, Except.bind] at hread
      | ok a =>
        refine ⟨a, rfl, fun v' f _ hv' => ?_⟩
        cases rest with
        | nil => simp [Read.pair_of_view_short (hview v), hv, Except.bind] at hread
        | cons y surplus =>
          rw [Read.pair_of_view (hview v), hv] at hread
          rw [Read.pair_of_view (hview v'), hv']
          cases hy : second y with
          | error g => simp [hy, Except.bind] at hread
          | ok b =>
            simp only [hy, Except.bind] at hread ⊢
            obtain ⟨rfl, hend⟩ := Read.pairEnd_of_ok hread
            exact hend (f a, b)

/-- A reader of pairs comes to the second item. -/
theorem pairSecond :
    Reaches (Read.pair what first second) [.item 1] second fun f p => (p.1, f p.2) where
  focus := by
    intro os htakes
    obtain ⟨o, rfl, hindex⟩ := exists_of_takes_singleton htakes
    cases o with
    | member front key => exact absurd hindex id
    | items front =>
      obtain ⟨x, rfl⟩ := List.length_eq_one_iff.mp hindex
      refine ⟨(first x).map fun _ => (), fun C hholes => ?_⟩
      cases hholes.of_singleton with
      | @items _ rest next? _ _ hview _ =>
        obtain ⟨k, hk⟩ := Focus.exists_bind_eq (first x) fun a b =>
          Read.pairEnd what next? rest (a, b)
        exact ⟨k, fun v _ => (Read.pair_of_view (hview v)).trans (hk _)⟩
  updates := by
    intro os C htakes hholes v p _ hread
    obtain ⟨o, rfl, hindex⟩ := exists_of_takes_singleton htakes
    cases hholes.of_singleton with
    | member hview _ => exact absurd hindex id
    | @items front rest next? _ _ hview _ =>
      obtain ⟨x, rfl⟩ := List.length_eq_one_iff.mp hindex
      rw [Read.pair_of_view (hview v)] at hread
      cases hx : first x with
      | error g => simp [hx, Except.bind] at hread
      | ok a =>
        cases hv : second v with
        | error g => simp [hx, hv, Except.bind] at hread
        | ok b =>
          simp only [hx, hv, Except.bind] at hread
          obtain ⟨rfl, hend⟩ := Read.pairEnd_of_ok hread
          refine ⟨b, rfl, fun v' f _ hv' => ?_⟩
          rw [Read.pair_of_view (hview v'), hx, hv']
          exact hend (a, f b)

end Reaches

end Pairs

end EngineHost.Json
