import EngineHost.Proofs.Json.Form
import EngineHost.Proofs.Json.Grammar

/-!
# Printed values

The compact text of a value is a JSON text. What matters for reading it back is the form of the
tree that it spells, so every statement here pairs the two: the text spells some node, and the node
has the form.
-/

namespace EngineHost

/-- The leading digit of a number is zero only in the number zero. -/
theorem Decimal.digits_of_head {n : Nat} (h : (Decimal.digits n).head? = some 0) :
    Decimal.digits n = [0] := by
  have hpositive : ∀ n, 0 < n → (digits n).head? ≠ some 0 := by
    intro n hn
    fun_induction digits n with
    | case1 n _ => simpa using Nat.ne_of_gt hn
    | case2 n hlarge ih =>
      have hquotient : 0 < n / 10 := by omega
      have hne : digits (n / 10) ≠ [] := by
        rw [digits]
        split <;> simp
      rw [List.head?_append_of_ne_nil _ hne]
      exact ih hquotient
  rcases Nat.eq_zero_or_pos n with rfl | hn
  · rw [digits, if_pos (by decide)]
  · exact absurd h (hpositive n hn)

/-- Every number has a digit. -/
theorem Decimal.digits_ne_nil (n : Nat) : Decimal.digits n ≠ [] := by
  rw [digits]
  split <;> simp

namespace Json

/-! ### Strings -/

/-- Pieces are written one after the other. -/
theorem PiecesWritten.append {ps qs : List Piece} {text rest : Bytes} (hps : PiecesWritten ps text)
    (hqs : PiecesWritten qs rest) : PiecesWritten (ps ++ qs) (text ++ rest) := by
  induction hps with
  | nil => exact hqs
  | cons hpiece _ ih =>
    rw [List.cons_append, List.append_assoc]
    exact .cons hpiece ih

/-- A single piece is written as it is on its own. -/
theorem PiecesWritten.singleton {p : Piece} {text : Bytes} (hpiece : p.Written text) :
    PiecesWritten [p] text := by
  have hwritten := PiecesWritten.cons hpiece .nil
  rwa [List.append_nil] at hwritten

/-- The bytes from 128 on are printed as they are. -/
theorem escapeByte_of_large {b : UInt8} (hb : 128 ≤ b) : escapeByte b = [b] := by
  have hnat : 128 ≤ b.toNat := hb
  have hne : ∀ c : UInt8, c.toNat < 128 → b ≠ c := by
    rintro c hc rfl
    omega
  have hlarge : ¬b < 32 := by
    intro hlt
    have hlt' : b.toNat < 32 := hlt
    omega
  simp [escapeByte, hne, hlarge]

/-- Bytes outside ASCII are written as they are. -/
theorem pieces_of_large {bs : Bytes} (h : ∀ b ∈ bs, 128 ≤ b) :
    PiecesWritten (bs.map .plain) (bs.flatMap escapeByte) := by
  induction bs with
  | nil => exact .nil
  | cons b bs ih =>
    have hb : 128 ≤ b := h b (List.mem_cons_self ..)
    have hplain : 32 ≤ b ∧ b ≠ 34 ∧ b ≠ 92 := by
      have hnat : 128 ≤ b.toNat := hb
      refine ⟨?_, ?_, ?_⟩
      · change 32 ≤ b.toNat
        omega
      · rintro rfl
        exact absurd hnat (by decide)
      · rintro rfl
        exact absurd hnat (by decide)
    rw [List.map_cons, List.flatMap_cons, escapeByte_of_large hb]
    exact .cons (.plain hplain.1 hplain.2.1 hplain.2.2)
      (ih fun c hc => h c (List.mem_cons_of_mem b hc))

/-- The three ways in which an ASCII byte is printed: by a letter, by a unit or as itself. -/
theorem escapeByte_of_ascii {b : UInt8} (hb : b < 128) :
    (∃ e ∈ escapeLetters, e.2 = b ∧ escapeByte b = [92, e.1]) ∨
      escapeByte b = [92, 117, 48, 48, Hex.digitByte (b / 16), Hex.digitByte (b % 16)] ∨
      (32 ≤ b ∧ b ≠ 34 ∧ b ≠ 92) ∧ escapeByte b = [b] := by
  have hall : ∀ n < 128, ∀ b ∈ [UInt8.ofNat n],
      (∃ e ∈ escapeLetters, e.2 = b ∧ escapeByte b = [92, e.1]) ∨
        escapeByte b = [92, 117, 48, 48, Hex.digitByte (b / 16), Hex.digitByte (b % 16)] ∨
        (32 ≤ b ∧ b ≠ 34 ∧ b ≠ 92) ∧ escapeByte b = [b] := by decide +kernel
  refine hall b.toNat hb b ?_
  rw [UInt8.ofNat_toNat]
  exact List.mem_singleton_self b

/-- An ASCII character is printed in one of its spellings. -/
theorem exists_pieces_of_ascii {c : Char} {b : UInt8} (hb : b < 128) (hc : c.toNat = b.toNat) :
    ∃ ps, CharSpelled c ps ∧ PiecesWritten ps (escapeByte b) := by
  have hnat : b.toNat < 128 := hb
  rcases escapeByte_of_ascii hb with
    ⟨⟨letter, b'⟩, hmem, rfl, hprinted⟩ | hprinted | ⟨hplain, hprinted⟩
  · rw [hprinted]
    exact ⟨[.escape b'], .letter hb hc, .singleton (.escape hmem)⟩
  · have hzero : Hex.IsDigit 48 0 := by decide
    have hunit := Piece.Written.unit hzero hzero (Hex.isDigit_high b) (Hex.isDigit_low b)
    have hvalue : (((0 : UInt8).toNat * 16 + (0 : UInt8).toNat) * 16 + (b / 16).toNat) * 16 +
        (b % 16).toNat = c.toNat := by
      rw [UInt8.toNat_div, UInt8.toNat_mod, hc]
      change (0 * 16 + b.toNat / 16) * 16 + b.toNat % 16 = b.toNat
      omega
    rw [hvalue] at hunit
    rw [hprinted]
    exact ⟨[.unit c.toNat], .unit (by omega), .singleton hunit⟩
  · have hraw : CharSpelled c [.plain b] := by
      have hchar : CharSpelled c ((String.utf8EncodeChar c).map .plain) := .raw
      rwa [utf8EncodeChar_of_ascii hb hc] at hchar
    rw [hprinted]
    exact ⟨[.plain b], hraw, .singleton (.plain hplain.1 hplain.2.1 hplain.2.2)⟩

/-- A character is printed in one of its spellings. -/
theorem exists_pieces_of_char (c : Char) :
    ∃ ps, CharSpelled c ps ∧ PiecesWritten ps ((String.utf8EncodeChar c).flatMap escapeByte) := by
  rcases Nat.lt_or_ge c.toNat 128 with hascii | hlarge
  · have hbyte : c.toNat = (UInt8.ofNat c.toNat).toNat := by
      rw [UInt8.toNat_ofNat']
      omega
    have hb : UInt8.ofNat c.toNat < 128 := by
      change (UInt8.ofNat c.toNat).toNat < 128
      omega
    rw [utf8EncodeChar_of_ascii hb hbyte, List.flatMap_singleton]
    exact exists_pieces_of_ascii hb hbyte
  · exact ⟨_, .raw, pieces_of_large fun b hb => large_of_mem_utf8EncodeChar hlarge hb⟩

/-- A text is printed in one of its spellings. -/
theorem exists_pieces (s : String) :
    ∃ ps, Spelled s.toList ps ∧ PiecesWritten ps ((Bytes.ofText s).flatMap escapeByte) := by
  have hbytes : Bytes.ofText s = s.toList.flatMap String.utf8EncodeChar := by
    rw [← Bytes.ofText_ofList, String.ofList_toList]
  rw [hbytes]
  induction s.toList with
  | nil => exact ⟨[], .nil, .nil⟩
  | cons c cs ih =>
    obtain ⟨ps, hspelled, hwritten⟩ := exists_pieces_of_char c
    obtain ⟨qs, hspelled', hwritten'⟩ := ih
    refine ⟨ps ++ qs, .cons hspelled hspelled', ?_⟩
    rw [List.flatMap_cons, List.flatMap_append]
    exact hwritten.append hwritten'

/-! ### Values -/

/-- The compact text of the value spells a node of which this holds. -/
def Prints (v : Value) (form : Node → Prop) : Prop :=
  ∃ node, Written (.value node) v.compact ∧ form node

/-- The text of `null` spells `null`. -/
theorem prints_null : Prints .null (Shaped.Shows · .null) := ⟨.null, .null, .null⟩

/-- Booleans are printed in their form. -/
theorem prints_boolean (b : Bool) : Prints (.boolean b) (Form.boolean b) :=
  ⟨.boolean b, .boolean b, .boolean b⟩

/-- The digits of a number, with or without a minus sign, are a numeral. -/
theorem written_digits (negative : Bool) (n : Nat) :
    Numeral.Written ⟨negative, Decimal.digits n, none, none⟩
      ((if negative then [45] else []) ++ digitBytes (Decimal.digits n)) := by
  have hdigits : Digits (Decimal.digits n) :=
    ⟨Decimal.digits_ne_nil n, fun d hd => Decimal.lt_ten_of_mem_digits hd⟩
  have hnumeral : Numeral.Written ⟨negative, Decimal.digits n, none, none⟩
      ((if negative then [45] else []) ++ (digitBytes (Decimal.digits n) ++ ([] ++ []))) :=
    .mk hdigits Decimal.digits_of_head .none .none
  rwa [List.append_nil, List.append_nil] at hnumeral

/-- A natural number of 64 bits is printed as a numeral of this value. -/
theorem prints_natural {n : Nat} (hn : n < 0x10000000000000000) :
    Prints (.number (.integer n)) (Shaped.Shows · (.natural n)) := by
  have htext : (Value.number (.integer n)).compact = digitBytes (Decimal.digits n) := by
    simp [Value.compact, Number.bytes, naturalBytes, digitBytes]
  refine ⟨.numeral { whole := Decimal.digits n }, ?_, .natural hn⟩
  rw [htext]
  exact .numeral (written_digits false n)

/-- Offsets are printed in their form. -/
theorem prints_offset (n : UInt64) : Prints (.natural n) (Form.offset n) :=
  prints_natural n.toNat_lt

/-- Texts are printed in their form. -/
theorem prints_text (s : String) : Prints (.string s) (Form.text s) := by
  obtain ⟨ps, hspelled, hwritten⟩ := exists_pieces s
  exact ⟨.quoted ⟨ps, .closed⟩, .quoted hwritten, .text hspelled⟩

/-! ### Arrays -/

/-- Items behind others start with a comma. -/
theorem compactItems_false (v : Value) (vs : List Value) :
    Value.compactItems false (v :: vs) = 44 :: Value.compactItems true (v :: vs) := rfl

/-- Printed items, separated by commas. -/
theorem written_items {v : Value} {vs : List Value} {nodes : List Node}
    (h : List.Forall₂ (fun v node => Written (.value node) v.compact) (v :: vs) nodes) :
    Written (.items nodes) (Value.compactItems true (v :: vs)) := by
  have hnone : Blank [] := by decide
  induction vs generalizing v nodes with
  | nil =>
    cases h with
    | cons hv hrest =>
      cases hrest
      simpa [Value.compactItems] using Written.lastItem hnone hv hnone
  | cons v' vs ih =>
    cases h with
    | cons hv hrest =>
      have hitems := Written.item hnone hv hnone (ih hrest)
      rw [Value.compactItems, compactItems_false]
      simpa using hitems

/-- An array is printed with its items in their forms. -/
theorem prints_array {vs : List Value} {forms : List (Node → Prop)}
    (h : List.Forall₂ Prints vs forms) :
    Prints (.array vs) fun node => ∃ nodes, Shaped.Shows node (.array nodes) ∧
      List.Forall₂ (fun form node => form node) forms nodes := by
  have hnodes : ∃ nodes, List.Forall₂ (fun v node => Written (.value node) v.compact) vs nodes ∧
      List.Forall₂ (fun form node => form node) forms nodes := by
    induction h with
    | nil => exact ⟨[], .nil, .nil⟩
    | cons hv _ ih =>
      obtain ⟨node, hwritten, hform⟩ := hv
      obtain ⟨nodes, hwrittens, hforms⟩ := ih
      exact ⟨node :: nodes, .cons hwritten hwrittens, .cons hform hforms⟩
  obtain ⟨nodes, hwritten, hforms⟩ := hnodes
  refine ⟨.array nodes .closed, ?_, nodes, .array nodes, hforms⟩
  cases vs with
  | nil =>
    cases hwritten
    exact .emptyArray (w := []) (by decide)
  | cons v vs => exact .array (written_items hwritten)

variable {α β : Type}

/-- Lists are printed in their form if their items are. -/
theorem prints_list {form : Form Node α} {toJson : α → Value} (h : ∀ a, Prints (toJson a) (form a))
    (as : List α) : Prints (.array (as.map toJson)) (Form.list form as) := by
  have hitems : List.Forall₂ Prints (as.map toJson) (as.map form) := by
    induction as with
    | nil => exact .nil
    | cons a as ih => exact .cons (h a) ih
  obtain ⟨node, hwritten, nodes, hshows, hforms⟩ := prints_array hitems
  rw [List.forall₂_map_left_iff (R := fun (p : Node → Prop) node => p node)] at hforms
  exact ⟨node, hwritten, nodes, hshows, hforms⟩

/-- Pairs are printed in their form if both items are. -/
theorem prints_pair {first : Form Node α} {second : Form Node β} {a : α} {b : β} {x y : Value}
    (hx : Prints x (first a)) (hy : Prints y (second b)) :
    Prints (.array [x, y]) (Form.pair first second (a, b)) := by
  obtain ⟨node, hwritten, nodes, hshows, hforms⟩ := prints_array (.cons hx (.cons hy .nil))
  cases hforms with
  | @cons _ x' _ _ hx' hrest =>
    cases hrest with
    | @cons _ y' _ _ hy' hnil =>
      cases hnil
      exact ⟨node, hwritten, x', y', hshows, hx', hy'⟩

/-! ### Objects -/

/-- A member and its printed key and value. -/
def MemberPrinted (m : String × Value) (q : Quoted × Node) : Prop :=
  ∃ ps, q.1 = ⟨ps, .closed⟩ ∧ PiecesWritten ps ((Bytes.ofText m.1).flatMap escapeByte) ∧
    Written (.value q.2) m.2.compact

/-- Members behind others start with a comma. -/
theorem compactMembers_false (m : String × Value) (members : List (String × Value)) :
    Value.compactMembers false (m :: members) = 44 :: Value.compactMembers true (m :: members) :=
  rfl

/-- Printed members, separated by commas. -/
theorem written_members {m : String × Value} {members : List (String × Value)}
    {qs : List (Quoted × Node)} (h : List.Forall₂ MemberPrinted (m :: members) qs) :
    Written (.members qs) (Value.compactMembers true (m :: members)) := by
  have hnone : Blank [] := by decide
  induction members generalizing m qs with
  | nil =>
    cases h with
    | @cons _ q _ _ hq hrest =>
      cases hrest
      obtain ⟨key, node⟩ := q
      obtain ⟨ps, rfl, hkey, hnode⟩ := hq
      have hlast := Written.lastMember hnone hkey hnone hnone hnode hnone
      simpa [Value.compactMembers, quotedBytes] using hlast
  | cons m' members ih =>
    cases h with
    | @cons _ q _ _ hq hrest =>
      obtain ⟨key, node⟩ := q
      obtain ⟨ps, rfl, hkey, hnode⟩ := hq
      have hmember := Written.member hnone hkey hnone hnone hnode hnone (ih hrest)
      rw [Value.compactMembers, compactMembers_false]
      simpa [quotedBytes] using hmember

/-- The members of a printed record: the parts in their order, some of them left out. -/
inductive Listed : List (RecordPart Node) → List (String × Value) → Prop where
  | nil : Listed [] []
  | given {part : RecordPart Node} {parts : List (RecordPart Node)} {name : String} {v : Value}
    {members : List (String × Value)} (hname : name ∈ part.names) (hv : Prints v part.form)
    (hrest : Listed parts members) : Listed (part :: parts) ((name, v) :: members)
  | left {part : RecordPart Node} {parts : List (RecordPart Node)} {members : List (String × Value)}
    (homissible : part.omissible) (hrest : Listed parts members) :
    Listed (part :: parts) members

section Describes

variable {ν : Type} {part : RecordPart ν} {parts : List (RecordPart ν)}
  {members : List (String × ν)}

/-- No member of the other parts has a name of this one. -/
theorem Describes.not_mem_names (h : Describes parts (fun _ => False) members)
    (hnames : ∀ other ∈ parts, ∀ name ∈ part.names, name ∉ other.names) {m : String × ν}
    (hm : m ∈ members) : m.1 ∉ part.names := by
  intro hname
  rcases h.member m hm with ⟨other, hother, hotherName, _⟩ | ⟨_, hfalse⟩
  · exact hnames other hother m.1 hname hotherName
  · exact hfalse

/-- One more part, left out. -/
theorem Describes.left (h : Describes parts (fun _ => False) members)
    (hnames : ∀ other ∈ parts, ∀ name ∈ part.names, name ∉ other.names)
    (homissible : part.omissible) : Describes (part :: parts) (fun _ => False) members where
  member m hm := by
    rcases h.member m hm with ⟨other, hother, hm⟩ | ⟨_, hfalse⟩
    · exact .inl ⟨other, List.mem_cons_of_mem part hother, hm⟩
    · exact hfalse.elim
  once := by
    refine h.once.imp_of_mem ?_
    intro m m' hm _ honce other hother hname
    rcases List.mem_cons.mp hother with rfl | hrest
    · exact absurd hname (h.not_mem_names hnames hm)
    · exact honce other hrest hname
  complete other hother := by
    rcases List.mem_cons.mp hother with rfl | hrest
    · exact .inl homissible
    · exact h.complete other hrest

/-- One more part, given by the first member. -/
theorem Describes.given (h : Describes parts (fun _ => False) members)
    (hnames : ∀ other ∈ parts, ∀ name ∈ part.names, name ∉ other.names) {name : String}
    (hname : name ∈ part.names) {v : ν} (hv : part.form v) :
    Describes (part :: parts) (fun _ => False) ((name, v) :: members) where
  member m hm := by
    rcases List.mem_cons.mp hm with rfl | hrest
    · exact .inl ⟨part, List.mem_cons_self .., hname, hv⟩
    · rcases h.member m hrest with ⟨other, hother, hm⟩ | ⟨_, hfalse⟩
      · exact .inl ⟨other, List.mem_cons_of_mem part hother, hm⟩
      · exact hfalse.elim
  once := by
    rw [List.pairwise_cons]
    constructor
    · intro m hm other hother hfirst
      rcases List.mem_cons.mp hother with rfl | hrest
      · exact h.not_mem_names hnames hm
      · exact absurd hfirst (hnames other hrest name hname)
    · refine h.once.imp_of_mem ?_
      intro m m' hm _ honce other hother hmName
      rcases List.mem_cons.mp hother with rfl | hrest
      · exact absurd hmName (h.not_mem_names hnames hm)
      · exact honce other hrest hmName
  complete other hother := by
    rcases List.mem_cons.mp hother with rfl | hrest
    · exact .inr ⟨(name, v), List.mem_cons_self .., hname⟩
    · rcases h.complete other hrest with homissible | ⟨m, hm, hmName⟩
      · exact .inl homissible
      · exact .inr ⟨m, List.mem_cons_of_mem (name, v) hm, hmName⟩

/-- Where extras are allowed there need not be any. -/
theorem Describes.allow (h : Describes parts (fun _ => False) members) (extra : ν → Prop) :
    Describes parts extra members where
  member m hm := by
    rcases h.member m hm with hpart | ⟨_, hfalse⟩
    · exact .inl hpart
    · exact hfalse.elim
  once := h.once
  complete := h.complete

end Describes

/-- The parts of a record have different names. -/
def NamesApart {ν : Type} (parts : List (RecordPart ν)) : Prop :=
  parts.Pairwise fun part other => ∀ name ∈ part.names, name ∉ other.names

/-- Every listed member is printed as a member of a node, and together they describe the record. -/
theorem exists_members_of_listed {parts : List (RecordPart Node)} {members : List (String × Value)}
    (h : Listed parts members) (hnames : NamesApart parts) :
    ∃ ms qs, List.Forall₂ MemberSpelled ms qs ∧ List.Forall₂ MemberPrinted members qs ∧
      Describes parts (fun _ => False) ms := by
  induction h with
  | nil =>
    refine ⟨[], [], .nil, .nil, ⟨?_, .nil, ?_⟩⟩
    · intro m hm
      cases hm
    · intro part hpart
      cases hpart
  | @given part parts name v members hname hv _ ih =>
    have hnames' := List.pairwise_cons.mp hnames
    obtain ⟨ms, qs, hspelled, hprinted, hdescribes⟩ := ih hnames'.2
    obtain ⟨node, hwritten, hform⟩ := hv
    obtain ⟨ps, hps, hkey⟩ := exists_pieces name
    refine ⟨(name, node) :: ms, (⟨ps, .closed⟩, node) :: qs, .cons ⟨rfl, hps, rfl⟩ hspelled,
      .cons ⟨ps, rfl, hkey, hwritten⟩ hprinted, ?_⟩
    exact hdescribes.given hnames'.1 hname hform
  | left homissible _ ih =>
    have hnames' := List.pairwise_cons.mp hnames
    obtain ⟨ms, qs, hspelled, hprinted, hdescribes⟩ := ih hnames'.2
    exact ⟨ms, qs, hspelled, hprinted, hdescribes.left hnames'.1 homissible⟩

/-- A record is printed as an object that describes it. -/
theorem prints_record {parts : α → List (RecordPart Node)} {a : α} {members : List (String × Value)}
    (h : Listed (parts a) members) (hnames : NamesApart (parts a)) (extra : Node → Prop) :
    Prints (.object members) (Form.record parts extra a) := by
  obtain ⟨ms, qs, hspelled, hprinted, hdescribes⟩ := exists_members_of_listed h hnames
  refine ⟨.object qs .closed, ?_, ms, .object hspelled, hdescribes.allow extra⟩
  cases members with
  | nil =>
    cases hprinted
    exact .emptyObject (w := []) (by decide)
  | cons m members => exact .object (written_members hprinted)

end Json

end EngineHost
