import EngineHost.Proofs.Json.Inversion
import EngineHost.Proofs.Json.Scanning

/-!
# Texts inside a text

A text that can be read on its own is scanned to the same tree where it stands inside a larger
text: the scanner does on top of any stack what it does on the empty one, as long as it meets no
fault. What is read on its own can also be read there, as long as the levels of nesting around it
leave enough room.
-/

namespace EngineHost.Json

variable {α δ : Type}

/-! ### What is read has no fault -/

/-- A string can be skipped just in case it is closed. -/
theorem Quoted.check_eq_ok_iff {q : Quoted} : q.check = .ok () ↔ q.ending = .closed := by
  obtain ⟨ps, ending⟩ := q
  cases ending <;> simp [Quoted.check, QuotedEnd.fault?]

/-- Strings that have a text close. -/
theorem Quoted.ending_of_bytesOf {ending : QuotedEnd} {ps : List Piece} {bs : Bytes}
    (hbytes : bytesOf ending ps = .ok bs) : ending = .closed := by
  fun_induction bytesOf ending ps generalizing bs with
  | case1 hending => cases ending <;> simp_all [QuotedEnd.fault?]
  | case2 f hending => cases hbytes
  | case3 b ps ih | case4 b ps ih =>
    obtain ⟨bs', hrest, -⟩ := map_eq_ok_iff.mp hbytes
    exact ih hrest
  | case6 u _ _ v rest _ ih | case10 u ps _ _ ih =>
    obtain ⟨bs', hrest, -⟩ := map_eq_ok_iff.mp hbytes
    exact ih hrest
  | case5 | case7 | case8 | case9 => cases hbytes

/-- A string that has a text can be skipped. -/
theorem Quoted.check_of_text {q : Quoted} {s : String} (htext : q.text = .ok s) :
    q.check = .ok () := by
  unfold Quoted.text at htext
  split at htext
  case h_1 => cases htext
  case h_2 bs hbytes => exact check_eq_ok_iff.mpr (ending_of_bytesOf hbytes)

/-- Items can be skipped just in case each can and their array is closed. -/
theorem Node.checkItems_eq_ok_iff {ending : ArrayEnd} {items : List Node} :
    Node.checkItems ending items = .ok () ↔
      ending = .closed ∧ ∀ item ∈ items, item.check = .ok () := by
  induction items with
  | nil => cases ending <;> simp [Node.checkItems, ArrayEnd.unchecked?, raise?]
  | cons item rest ih =>
    rw [Node.checkItems, List.forall_mem_cons]
    cases item.check with
    | error f => simp
    | ok u => simp [ih]

/-- Members can be skipped just in case each key and value can and their object is closed. -/
theorem Node.checkMembers_eq_ok_iff {ending : ObjectEnd} {members : List (Quoted × Node)} :
    Node.checkMembers ending members = .ok () ↔
      ending = .closed ∧ ∀ m ∈ members, m.1.check = .ok () ∧ m.2.check = .ok () := by
  induction members with
  | nil => cases ending <;> simp [Node.checkMembers, ObjectEnd.unchecked?, raise?]
  | cons m rest ih =>
    obtain ⟨key, value⟩ := m
    rw [Node.checkMembers, List.forall_mem_cons]
    cases key.check with
    | error f => simp
    | ok u =>
      cases value.check with
      | error f => simp
      | ok u => simp [ih]

mutual

/-- A value that can be read untyped can be skipped. -/
theorem Node.check_of_value {room : Nat} {node : Node} {v : Value}
    (hvalue : node.value room = .ok v) : node.check = .ok () := by
  cases node with
  | null | boolean _ | numeral _ => rfl
  | quoted q =>
    obtain ⟨s, htext, -⟩ := map_eq_ok_iff.mp hvalue
    exact Quoted.check_of_text htext
  | array items ending =>
    cases room with
    | zero => cases hvalue
    | succ room =>
      obtain ⟨vs, hitems, -⟩ := map_eq_ok_iff.mp hvalue
      exact checkItems_of_itemValues hitems
  | object members ending =>
    cases room with
    | zero => cases hvalue
    | succ room =>
      obtain ⟨vs, hmembers, -⟩ := map_eq_ok_iff.mp hvalue
      exact checkMembers_of_memberValues hmembers
  | broken b => cases hvalue

/-- Items that can be read untyped can be skipped. -/
theorem Node.checkItems_of_itemValues {room : Nat} {ending : ArrayEnd} {items : List Node}
    {vs : List Value} (hitems : Node.itemValues room ending items = .ok vs) :
    Node.checkItems ending items = .ok () := by
  cases items with
  | nil =>
    cases ending with
    | closed => rfl
    | unfinished | noSeparator | commaClosed => cases hitems
  | cons item rest =>
    rw [Node.itemValues] at hitems
    split at hitems
    case h_1 => cases hitems
    case h_2 v hitem =>
      obtain ⟨vs', hrest, -⟩ := map_eq_ok_iff.mp hitems
      rw [Node.checkItems, check_of_value hitem]
      exact checkItems_of_itemValues hrest

/-- Members that can be read untyped can be skipped. -/
theorem Node.checkMembers_of_memberValues {room : Nat} {ending : ObjectEnd}
    {done out : List (String × Value)} {members : List (Quoted × Node)}
    (hmembers : Node.memberValues room ending done members = .ok out) :
    Node.checkMembers ending members = .ok () := by
  cases members with
  | nil =>
    cases ending with
    | closed => rfl
    | unfinished | noSeparator | noKey | commaClosed | commaUnfinished => cases hmembers
  | cons m rest =>
    obtain ⟨key, value⟩ := m
    rw [Node.memberValues] at hmembers
    split at hmembers
    case h_1 => cases hmembers
    case h_2 k hkey =>
      split at hmembers
      case h_1 => cases hmembers
      case h_2 v hvalue =>
        rw [Node.checkMembers, Quoted.check_of_text hkey]
        simp only [check_of_value hvalue]
        exact checkMembers_of_memberValues hmembers

end

namespace Record

/-- The members of an object that is read are keys with a text, and values that fill a field or are
skipped. -/
theorem of_mem_fillMembers {fields : List (Field Node δ)} {members : List (Quoted × Node)}
    {d d' : δ} (hfill : fillMembers fields (seenMembers members) d = .ok d') {m : Quoted × Node}
    (hm : m ∈ members) :
    (∃ name, m.1.text = .ok name) ∧
      (m.2.check = .ok () ∨ ∃ field ∈ fields, ∃ e e', field.fill m.2 e = .ok e') := by
  induction members generalizing d with
  | nil => cases hm
  | cons first rest ih =>
    obtain ⟨key, v⟩ := first
    change fillMembers fields ((key.text, v) :: seenMembers rest) d = .ok d' at hfill
    cases hkey : key.text with
    | error f =>
      rw [hkey] at hfill
      cases hfill
    | ok name =>
      rw [hkey, fillMembers] at hfill
      split at hfill
      case h_1 =>
        split at hfill
        case h_1 => cases hfill
        case h_2 hcheck =>
          rcases List.mem_cons.mp hm with rfl | hrest
          · exact ⟨⟨name, hkey⟩, .inl hcheck⟩
          · exact ih hfill hrest
      case h_2 field hfind =>
        split at hfill
        case isTrue => cases hfill
        case isFalse =>
          split at hfill
          case h_1 => cases hfill
          case h_2 longer hlonger =>
            rcases List.mem_cons.mp hm with rfl | hrest
            · have hfield : field ∈ fields := List.mem_of_find?_eq_some hfind
              exact ⟨⟨name, hkey⟩, .inr ⟨field, hfield, d, longer, hlonger⟩⟩
            · exact ih hfill hrest

/-- The items of an array that is read fill a field each. -/
theorem of_mem_fillItems {missing : Nat → Fault} {next? : Option Fault} {index : Nat}
    {fields : List (Field Node δ)} {items : List Node} {d d' : δ}
    (hlength : items.length ≤ fields.length)
    (hfill : fillItems missing next? index fields items d = .ok d') {item : Node}
    (hitem : item ∈ items) : ∃ field ∈ fields, ∃ e e', field.fill item e = .ok e' := by
  induction fields generalizing index items d with
  | nil =>
    rw [List.eq_nil_of_length_eq_zero (Nat.le_zero.mp hlength)] at hitem
    cases hitem
  | cons field fields ih =>
    cases items with
    | nil => cases hitem
    | cons first rest =>
      rw [fillItems] at hfill
      split at hfill
      case h_1 => cases hfill
      case h_2 longer hlonger =>
        rcases List.mem_cons.mp hitem with rfl | hrest
        · exact ⟨field, List.mem_cons_self .., d, longer, hlonger⟩
        · obtain ⟨field', hfield', hfilled⟩ := ih (Nat.le_of_succ_le_succ hlength) hfill hrest
          exact ⟨field', List.mem_cons_of_mem field hfield', hfilled⟩

/-- A node from which a record is read has no fault, if no field is read from a node that has. -/
theorem check_of_read {record : Record Node δ α}
    (hfields : ∀ field ∈ record.fields, ∀ v d d', field.fill v d = .ok d' → v.check = .ok ())
    {node : Node} {a : α} (hread : record.read node = .ok a) : node.check = .ok () := by
  obtain ⟨d, hfills, -⟩ := read_eq_ok_iff.mp hread
  cases hfills with
  | items hlength hfill =>
    refine Node.checkItems_eq_ok_iff.mpr ⟨rfl, fun item hitem => ?_⟩
    obtain ⟨field, hfield, e, e', hfilled⟩ := of_mem_fillItems hlength hfill hitem
    exact hfields field hfield item e e' hfilled
  | members hfill =>
    refine Node.checkMembers_eq_ok_iff.mpr ⟨rfl, fun m hm => ?_⟩
    obtain ⟨⟨name, hkey⟩, hcheck | ⟨field, hfield, e, e', hfilled⟩⟩ := of_mem_fillMembers hfill hm
    · exact ⟨Quoted.check_of_text hkey, hcheck⟩
    · exact ⟨Quoted.check_of_text hkey, hfields field hfield m.2 e e' hfilled⟩

end Record

/-- A scalar that a reader has seen has no fault. -/
theorem Node.check_of_view {node : Node} {view : View Node}
    (hview : Source.view node = .ok view)
    (hscalar : (∃ n, view = .number n) ∨ ∃ s, view = .string s) : node.check = .ok () := by
  change node.view = .ok view at hview
  cases node with
  | null | boolean _ | numeral _ => rfl
  | quoted q =>
    obtain ⟨s, htext, -⟩ := map_eq_ok_iff.mp hview
    exact Quoted.check_of_text htext
  | array _ _ | object _ _ =>
    cases hview
    rcases hscalar with ⟨_, hn⟩ | ⟨_, hs⟩
    · cases hn
    · cases hs
  | broken b => cases hview

/-- What is read as an offset can be skipped. -/
theorem Read.check_of_offset {node : Node} {n : UInt64} (hread : Read.offset node = .ok n) :
    node.check = .ok () := by
  obtain ⟨m, hnatural, -⟩ := map_eq_ok_iff.mp hread
  unfold Read.natural at hnatural
  split at hnatural
  case h_2 i hview => exact Node.check_of_view hview (.inl ⟨_, rfl⟩)
  all_goals cases hnatural

/-- What is read as a string can be skipped. -/
theorem Read.check_of_string {node : Node} {s : String} (hread : Read.string node = .ok s) :
    node.check = .ok () := by
  unfold Read.string at hread
  split at hread
  case h_2 s' hview => exact Node.check_of_view hview (.inr ⟨_, rfl⟩)
  all_goals cases hread

/-! ### Scanning on top of a stack -/

namespace Scan

/-- A broken node leaves a broken tree around it. -/
theorem check_unwind {node : Node} (hnode : node.check ≠ .ok ()) (stack : List Frame) :
    (unwind stack node).check ≠ .ok () := by
  induction stack generalizing node with
  | nil => exact hnode
  | cons frame stack ih =>
    cases frame with
    | items done =>
      refine ih fun hcheck => ?_
      cases (Node.checkItems_eq_ok_iff.mp hcheck).1
    | member done key =>
      refine ih fun hcheck => ?_
      cases (Node.checkMembers_eq_ok_iff.mp hcheck).1

/-- One scan does on top of `base` what the other does on the empty stack, unless that has met a
fault. -/
inductive Lifted (base : List Frame) : Scan → Scan → Prop where
  /-- Nothing but blanks has been met yet. -/
  | start (place : Place) :
    Lifted base (.running [] (.start .plain)) (.running base (.start place))
  | running (stack : List Frame) (mode : Mode) :
    Lifted base (.running stack mode) (.running (stack ++ base) mode)
  | halted {document : Document} (hfault : document.trailing = true ∨ document.root.check ≠ .ok ())
    (state : Scan) : Lifted base (.halted document) state

/-- A scan that has halted at a fault may be followed by anything. -/
theorem Lifted.halt {base : List Frame} {node : Node} (hnode : node.check ≠ .ok ())
    (stack : List Frame) (state : Scan) : Lifted base (Scan.halt stack node) state :=
  .halted (.inr (check_unwind hnode stack)) state

/-- An array that is not closed cannot be skipped. -/
theorem check_array_ne {items : List Node} {ending : ArrayEnd} (hending : ending ≠ .closed) :
    (Node.array items ending).check ≠ .ok () :=
  fun hcheck => hending (Node.checkItems_eq_ok_iff.mp hcheck).1

/-- An object that is not closed cannot be skipped. -/
theorem check_object_ne {members : List (Quoted × Node)} {ending : ObjectEnd}
    (hending : ending ≠ .closed) : (Node.object members ending).check ≠ .ok () :=
  fun hcheck => hending (Node.checkMembers_eq_ok_iff.mp hcheck).1

/-- A string that is not closed cannot be skipped. -/
theorem check_quoted_ne {q : Quoted} (hending : q.ending ≠ .closed) :
    (Node.quoted q).check ≠ .ok () := fun hcheck => hending (Quoted.check_eq_ok_iff.mp hcheck)

/-- What is broken cannot be skipped. -/
theorem check_broken_ne (b : Break) : (Node.broken b).check ≠ .ok () := nofun

/-- A byte after a value is taken alike on top of any stack. -/
theorem pushAfter_lifted (base stack : List Frame) (value : Node) (b : UInt8) :
    Lifted base (pushAfter stack value b) (pushAfter (stack ++ base) value b) := by
  unfold pushAfter
  by_cases hblank : isBlank b
  · simp only [hblank, if_true]
    exact .running stack (.after value)
  · simp only [hblank, Bool.false_eq_true, if_false]
    cases stack with
    | nil => exact .halted (.inl rfl) _
    | cons frame outer =>
      cases frame with
      | items done =>
        dsimp only [List.cons_append]
        split
        · exact .running (.items (value :: done) :: outer) _
        · split
          · exact .running outer _
          · exact .halt (check_array_ne (by decide)) outer _
      | member done key =>
        dsimp only [List.cons_append]
        split
        · exact .running outer _
        · split
          · exact .running outer _
          · exact .halt (check_object_ne (by decide)) outer _

/-- A byte where a key is expected is taken alike on top of any stack. -/
theorem pushKey_lifted (base stack : List Frame) (done : List (Quoted × Node)) (first : Bool)
    (b : UInt8) :
    Lifted base (pushKey stack done first b) (pushKey (stack ++ base) done first b) := by
  unfold pushKey
  split
  · exact .running stack _
  · split
    · exact .running stack _
    · split
      · split
        · exact .running stack _
        · exact .halt (check_object_ne (by decide)) stack _
      · exact .halt (check_object_ne (by decide)) stack _

/-- A byte in a numeral is taken alike on top of any stack. -/
theorem pushNumeral_lifted (base stack : List Frame) (n : Numeral) (b : UInt8) :
    Lifted base (pushNumeral stack n b) (pushNumeral (stack ++ base) n b) := by
  unfold pushNumeral
  split
  · exact .running stack _
  · split
    · exact pushAfter_lifted base stack (.numeral n) b
    · exact .halt (check_broken_ne _) stack _

/-- Where a value should start, only a closing bracket is taken differently from place to place. -/
theorem pushStart_lifted (base stack : List Frame) {place place' : Place}
    (hplace : place' = place ∨ stack = [] ∧ place = .plain) (b : UInt8) :
    Lifted base (pushStart stack place b) (pushStart (stack ++ base) place' b) := by
  unfold pushStart
  split
  · rcases hplace with rfl | ⟨rfl, rfl⟩
    · exact .running stack _
    · exact .start place'
  iterate 7
    split
    · exact .running _ _
  split
  · exact .running stack _
  · split
    case h_1 =>
      obtain rfl : place' = .firstItem := by simpa using hplace
      exact .running _ _
    case h_2 =>
      refine .halt ?_ _ _
      exact check_array_ne (by decide)
    case h_3 => exact .halt (check_broken_ne _) stack _

/-- One byte keeps the two scans in step. -/
theorem push_lifted {base : List Frame} {state state' : Scan} (hlifted : Lifted base state state')
    (b : UInt8) : Lifted base (state.push b) (state'.push b) := by
  cases hlifted with
  | start place => exact pushStart_lifted base [] (.inr ⟨rfl, rfl⟩) b
  | halted hfault => exact .halted hfault _
  | running stack mode =>
    cases mode with
    | start place => exact pushStart_lifted base stack (.inl rfl) b
    | word rest atom =>
      cases rest with
      | nil => exact pushAfter_lifted base stack atom.node b
      | cons letter rest =>
        simp only [push]
        split
        · exact .running stack _
        · exact .halt (check_broken_ne _) stack _
    | numeral n => exact pushNumeral_lifted base stack n b
    | quoted q =>
      simp only [push]
      split
      · exact .running stack _
      · split
        · exact .running stack _
        case isFalse hending =>
          exact .halt (check_quoted_ne hending) stack _
    | after value => exact pushAfter_lifted base stack value b
    | key done first => exact pushKey_lifted base stack done first b
    | quotedKey done q =>
      simp only [push]
      split
      · exact .running stack _
      · split
        · exact .running stack _
        · exact .halt (check_broken_ne _) _ _
    | colon done key =>
      simp only [push]
      split
      · exact .running stack _
      · split
        · exact .running (.member done key :: stack) _
        · exact .halt (check_broken_ne _) _ _

/-- A text keeps the two scans in step. -/
theorem feed_lifted {base : List Frame} (text : Bytes) {state state' : Scan}
    (hlifted : Lifted base state state') : Lifted base (state.feed text) (state'.feed text) := by
  induction text generalizing state state' with
  | nil => exact hlifted
  | cons b text ih => exact ih (push_lifted hlifted b)

/-- A tree has a fault if the text ends inside a container. -/
theorem eq_nil_of_endAfter {stack : List Frame} {value : Node}
    (hcheck : (endAfter stack value).check = .ok ()) : stack = [] := by
  cases stack with
  | nil => rfl
  | cons frame outer =>
    cases frame with
    | items done => exact absurd hcheck (check_unwind (check_array_ne (by decide)) outer)
    | member done key => exact absurd hcheck (check_unwind (check_object_ne (by decide)) outer)

/-- A text whose tree has no fault ends after its value. -/
theorem settled_of_endRunning {stack : List Frame} {mode : Mode}
    (hcheck : (endRunning stack mode).check = .ok ()) :
    stack = [] ∧ ∀ base, Settled base (endRunning stack mode) (.running base mode) := by
  cases mode with
  | start place =>
    simp only [endRunning] at hcheck
    split at hcheck
    · exact absurd hcheck (check_unwind (check_array_ne (by decide)) _)
    · exact absurd hcheck (check_unwind (check_broken_ne _) _)
  | word rest atom => exact absurd hcheck (check_unwind (check_broken_ne _) _)
  | numeral n =>
    unfold endRunning at hcheck ⊢
    by_cases hcomplete : n.complete = true
    · simp only [hcomplete, if_true] at hcheck ⊢
      obtain rfl := eq_nil_of_endAfter hcheck
      exact ⟨rfl, fun base => .inr ⟨n, rfl, hcomplete, rfl⟩⟩
    · simp only [hcomplete, Bool.false_eq_true, if_false] at hcheck
      exact absurd hcheck (check_unwind (check_broken_ne _) _)
  | quoted q =>
    have hcut : q.cut.ending ≠ .closed := by cases q <;> simp [QuotedProgress.cut]
    exact absurd hcheck (check_unwind (check_quoted_ne hcut) _)
  | after value =>
    obtain rfl := eq_nil_of_endAfter hcheck
    exact ⟨rfl, fun base => .inl rfl⟩
  | key done first =>
    refine absurd hcheck (check_unwind (check_object_ne ?_) _)
    cases first <;> decide
  | quotedKey done q => exact absurd hcheck (check_unwind (check_broken_ne _) _)
  | colon done key => exact absurd hcheck (check_unwind (check_broken_ne _) _)

/-- A text that spells a tree without a fault on its own spells it on top of any stack. -/
theorem scanned_of_check {text : Bytes} {root : Node}
    (hdocument : Document.ofBytes text = ⟨root, false⟩) (hcheck : root.check = .ok ()) :
    Scanned (.value root) text := by
  intro base place
  have hstart : Lifted base initial (.running base (.start place)) := .start place
  have hlifted := feed_lifted text hstart
  change (initial.feed text).finish = _ at hdocument
  generalize initial.feed text = state at hdocument hlifted
  generalize feed (.running base (.start place)) text = state' at hlifted ⊢
  cases hlifted with
  | start place =>
    cases hdocument
    exact absurd hcheck (check_broken_ne _)
  | running stack mode =>
    cases hdocument
    obtain ⟨rfl, hsettled⟩ := settled_of_endRunning hcheck
    exact hsettled base
  | halted hfault =>
    cases hdocument
    rcases hfault with htrailing | hroot
    · cases htrailing
    · exact absurd hcheck hroot

/-- Texts with commas between them are the items of an array. -/
theorem scanned_intercalate {nodes : List Node} {texts : List Bytes}
    (htexts : List.Forall₂ (fun node text => Scanned (.value node) text) nodes texts) :
    Scanned (.value (.array nodes .closed)) (91 :: ([44].intercalate texts ++ [93])) := by
  have hnone : Blank [] := by decide
  have hitems : nodes ≠ [] → Scanned (.items nodes) ([44].intercalate texts) := by
    induction htexts with
    | nil => exact fun hne => absurd rfl hne
    | @cons node text nodes texts hnode hrest ih =>
      intro _
      cases hrest with
      | nil => simpa [List.intercalate] using Scanned.lastItem hnone hnode hnone
      | cons hnext hrest =>
        have hitem := Scanned.item hnone hnode hnone (ih (by simp))
        simpa [List.intercalate] using hitem
  cases htexts with
  | nil => exact .emptyArray hnone
  | cons hnode hrest => exact (hitems (by simp)).array

end Scan

/-! ### Room for nesting -/

mutual

/-- How many arrays and objects are open at once at most. -/
def Node.depth : Node → Nat
  | .array items _ => Node.itemsDepth items + 1
  | .object members _ => Node.membersDepth members + 1
  | .null | .boolean _ | .numeral _ | .quoted _ | .broken _ => 0

/-- The greatest depth of items. -/
def Node.itemsDepth : List Node → Nat
  | [] => 0
  | item :: rest => max item.depth (Node.itemsDepth rest)

/-- The greatest depth of the values of members. -/
def Node.membersDepth : List (Quoted × Node) → Nat
  | [] => 0
  | (_, value) :: rest => max value.depth (Node.membersDepth rest)

end

/-- No item is deeper than the items together. -/
theorem Node.depth_le_itemsDepth {items : List Node} {item : Node} (hitem : item ∈ items) :
    item.depth ≤ Node.itemsDepth items := by
  induction items with
  | nil => cases hitem
  | cons first rest ih =>
    rw [Node.itemsDepth]
    rcases List.mem_cons.mp hitem with rfl | hrest
    · exact Nat.le_max_left ..
    · exact Nat.le_trans (ih hrest) (Nat.le_max_right ..)

/-- No value of a member is deeper than the members together. -/
theorem Node.depth_le_membersDepth {members : List (Quoted × Node)} {m : Quoted × Node}
    (hm : m ∈ members) : m.2.depth ≤ Node.membersDepth members := by
  induction members with
  | nil => cases hm
  | cons first rest ih =>
    obtain ⟨key, value⟩ := first
    rw [Node.membersDepth]
    rcases List.mem_cons.mp hm with rfl | hrest
    · exact Nat.le_max_left ..
    · exact Nat.le_trans (ih hrest) (Nat.le_max_right ..)

mutual

/-- A value that is read untyped is read the same wherever there is room for its nesting. -/
theorem Node.value_of_depth_le {room room' : Nat} {node : Node} {v : Value}
    (hvalue : node.value room = .ok v) (hdepth : node.depth ≤ room') :
    node.value room' = .ok v := by
  cases node with
  | null | boolean _ | numeral _ | quoted _ | broken _ => exact hvalue
  | array items ending =>
    cases room with
    | zero => cases hvalue
    | succ room =>
      obtain ⟨inner, rfl⟩ : ∃ inner, room' = inner + 1 := by
        rw [Node.depth] at hdepth
        exact ⟨room' - 1, by omega⟩
      obtain ⟨vs, hitems, rfl⟩ := map_eq_ok_iff.mp hvalue
      rw [Node.depth] at hdepth
      have hvalues := itemValues_of_depth_le hitems (Nat.le_of_succ_le_succ hdepth)
      rw [Node.value, hvalues]
      rfl
  | object members ending =>
    cases room with
    | zero => cases hvalue
    | succ room =>
      obtain ⟨inner, rfl⟩ : ∃ inner, room' = inner + 1 := by
        rw [Node.depth] at hdepth
        exact ⟨room' - 1, by omega⟩
      obtain ⟨vs, hmembers, rfl⟩ := map_eq_ok_iff.mp hvalue
      rw [Node.depth] at hdepth
      have hvalues := memberValues_of_depth_le hmembers (Nat.le_of_succ_le_succ hdepth)
      rw [Node.value, hvalues]
      rfl

/-- Items that can be read untyped can be read with any room for their depth. -/
theorem Node.itemValues_of_depth_le {room room' : Nat} {ending : ArrayEnd} {items : List Node}
    {vs : List Value} (hitems : Node.itemValues room ending items = .ok vs)
    (hdepth : Node.itemsDepth items ≤ room') : Node.itemValues room' ending items = .ok vs := by
  cases items with
  | nil => exact hitems
  | cons item rest =>
    rw [Node.itemsDepth, Nat.max_le] at hdepth
    rw [Node.itemValues] at hitems ⊢
    split at hitems
    case h_1 => cases hitems
    case h_2 v hitem =>
      obtain ⟨vs', hrest, rfl⟩ := map_eq_ok_iff.mp hitems
      rw [value_of_depth_le hitem hdepth.1]
      simp only [itemValues_of_depth_le hrest hdepth.2]
      rfl

/-- Members that can be read untyped can be read with any room for their depth. -/
theorem Node.memberValues_of_depth_le {room room' : Nat} {ending : ObjectEnd}
    {done out : List (String × Value)} {members : List (Quoted × Node)}
    (hmembers : Node.memberValues room ending done members = .ok out)
    (hdepth : Node.membersDepth members ≤ room') :
    Node.memberValues room' ending done members = .ok out := by
  cases members with
  | nil => exact hmembers
  | cons m rest =>
    obtain ⟨key, value⟩ := m
    rw [Node.membersDepth, Nat.max_le] at hdepth
    rw [Node.memberValues] at hmembers ⊢
    split at hmembers
    case h_1 => cases hmembers
    case h_2 k hkey =>
      split at hmembers
      case h_1 => cases hmembers
      case h_2 v hvalue =>
        simp only [value_of_depth_le hvalue hdepth.1]
        exact memberValues_of_depth_le hmembers hdepth.2

end

/-- The second field does what the first does where that is filled from a node with `p`. -/
structure Field.Follows (p : Node → Prop) (field field' : Field Node δ) : Prop where
  name_eq : field'.name = field.name
  otherName_eq : field'.otherName = field.otherName
  optional_eq : field'.optional = field.optional
  filled_eq : field'.filled = field.filled
  fill_eq : ∀ v d d', p v → field.fill v d = .ok d' → field'.fill v d = .ok d'

/-- Every field follows itself. -/
theorem Field.Follows.refl (p : Node → Prop) (field : Field Node δ) : field.Follows p field :=
  ⟨rfl, rfl, rfl, rfl, fun _ _ _ _ hfill => hfill⟩

namespace Record

variable {p : Node → Prop} {fields fields' : List (Field Node δ)}

/-- A key is for the same field of both lists, or for none. -/
theorem find?_of_follows (hfields : List.Forall₂ (Field.Follows p) fields fields') (key : String) :
    Option.Rel (Field.Follows p) (fields.find? (·.answers key))
      (fields'.find? (·.answers key)) := by
  induction hfields with
  | nil => exact .none
  | @cons field field' fields fields' hfield _ ih =>
    have hanswers : field'.answers key = field.answers key := by
      simp [Field.answers, hfield.name_eq, hfield.otherName_eq]
    rw [List.find?_cons, List.find?_cons, hanswers]
    cases field.answers key with
    | true => exact .some hfield
    | false => exact ih

/-- Members fill the second list of fields as they fill the first. -/
theorem fillMembers_of_follows (hfields : List.Forall₂ (Field.Follows p) fields fields')
    {members : List (Except Fault String × Node)} (hmembers : ∀ m ∈ members, p m.2) {d d' : δ}
    (hfill : fillMembers fields members d = .ok d') : fillMembers fields' members d = .ok d' := by
  induction members generalizing d with
  | nil => exact hfill
  | cons m rest ih =>
    obtain ⟨f | key, v⟩ := m
    · cases hfill
    · rw [List.forall_mem_cons] at hmembers
      have hfind := find?_of_follows hfields key
      rw [fillMembers] at hfill ⊢
      generalize fields.find? (·.answers key) = found at hfill hfind
      generalize fields'.find? (·.answers key) = found' at hfind ⊢
      cases hfind with
      | none =>
        dsimp only at hfill ⊢
        split at hfill
        case h_1 => cases hfill
        case h_2 => exact ih hmembers.2 hfill
      | some hfield =>
        dsimp only at hfill ⊢
        rw [hfield.filled_eq]
        split at hfill
        case isTrue => cases hfill
        case isFalse hopen =>
          split at hfill
          case h_1 => cases hfill
          case h_2 longer hlonger =>
            rw [if_neg hopen, hfield.fill_eq v d longer hmembers.1 hlonger]
            exact ih hmembers.2 hfill

/-- Items fill the second list of fields as they fill the first. -/
theorem fillItems_of_follows (hfields : List.Forall₂ (Field.Follows p) fields fields')
    {missing missing' : Nat → Fault} {next? : Option Fault} {index : Nat} {items : List Node}
    (hitems : ∀ item ∈ items, p item) {d d' : δ}
    (hfill : fillItems missing next? index fields items d = .ok d') :
    fillItems missing' next? index fields' items d = .ok d' := by
  induction hfields generalizing index items d with
  | nil => exact hfill
  | @cons field field' fields fields' hfield _ ih =>
    cases items with
    | nil =>
      unfold fillItems at hfill ⊢
      split at hfill
      case h_1 => cases hfill
      case h_2 =>
        rw [hfield.optional_eq]
        split at hfill
        case isTrue hoptional =>
          rw [if_pos hoptional]
          exact ih hitems hfill
        case isFalse => cases hfill
    | cons item rest =>
      rw [List.forall_mem_cons] at hitems
      rw [fillItems] at hfill ⊢
      split at hfill
      case h_1 => cases hfill
      case h_2 longer hlonger =>
        rw [hfield.fill_eq item d longer hitems.1 hlonger]
        exact ih hitems.2 hfill

/-- A record is read alike by fields that follow those of another record, as long as the parts of
the node are less deep than the node. -/
theorem read_of_follows {record record' : Record Node δ α} {depth : Nat}
    (hfields : List.Forall₂ (Field.Follows (·.depth < depth)) record.fields record'.fields)
    (hblank : record'.blank = record.blank) (hbuild : record'.build = record.build) {node : Node}
    (hdepth : node.depth ≤ depth) {a : α} (hread : record.read node = .ok a) :
    record'.read node = .ok a := by
  obtain ⟨d, hfills, hbuilt⟩ := read_eq_ok_iff.mp hread
  refine read_eq_ok_iff.mpr ⟨d, ?_, by rw [hbuild, hbuilt]⟩
  cases hfills with
  | @items items _ hlength hfill =>
    rw [Node.depth] at hdepth
    refine .items (hfields.length_eq ▸ hlength) ?_
    rw [hblank]
    refine fillItems_of_follows hfields (fun item hitem => ?_) hfill
    have hitemDepth := Node.depth_le_itemsDepth hitem
    omega
  | @members members _ hfill =>
    rw [Node.depth] at hdepth
    refine .members ?_
    rw [hblank]
    refine fillMembers_of_follows hfields (fun m hm => ?_) hfill
    obtain ⟨⟨key, value⟩, hmember, rfl⟩ := List.mem_map.mp hm
    have hvalueDepth := Node.depth_le_membersDepth hmember
    dsimp only at hvalueDepth ⊢
    omega

end Record

end EngineHost.Json
