import EngineHost.Proofs.Contract.RoundTrip

/-!
# Layouts of a contract

A value has a text without blanks, and one that gives every item and member a line of its own. Both
spell the same tree, because they differ only in blanks between tokens. So a contract is decoded
from either text. Numbers that are not whole are left out: no contract holds one, and not all of
them have a text that is JSON.
-/

namespace EngineHost

namespace Json

/-! ### Two layouts of one tree -/

/-- All numbers in the value are whole. -/
inductive Value.Whole : Value → Prop where
  | null : Whole .null
  | boolean (b : Bool) : Whole (.boolean b)
  | integer (i : Int) : Whole (.number (.integer i))
  | string (s : String) : Whole (.string s)
  | array {items : List Value} (hitems : ∀ v ∈ items, v.Whole) : Whole (.array items)
  | object {members : List (String × Value)} (hmembers : ∀ m ∈ members, m.2.Whole) :
    Whole (.object members)

/-- The tree is what the value spells without blanks, and on lines at every level. -/
structure Laid (v : Value) (node : Node) : Prop where
  compact : Written (.value node) v.compact
  pretty (level : Nat) : Written (.value node) (v.pretty level)

/-- The member of the tree is what the member of the value spells. -/
structure MemberLaid (m : String × Value) (q : Quoted × Node) : Prop where
  printed : MemberPrinted m q
  laid : Laid m.2 q.2

/-- A new line and its indentation are blank. -/
theorem blank_newLine (level : Nat) : Blank (newLine level) := by
  intro b hb
  rcases List.mem_cons.mp hb with rfl | hblank
  · decide
  · rw [List.eq_of_mem_replicate hblank]
    decide

/-- Items on lines of their own, with blanks behind the last of them. -/
theorem written_lines {v : Value} {vs : List Value} {nodes : List Node} {w : Bytes}
    (level : Nat) (h : List.Forall₂ Laid (v :: vs) nodes) (hw : Blank w) :
    Written (.items nodes)
      (newLine level ++ (v.pretty level ++ (Value.prettyItems level vs ++ w))) := by
  have hline := blank_newLine level
  have hnone : Blank [] := by decide
  induction vs generalizing v nodes with
  | nil =>
    cases h with
    | cons hv hrest =>
      cases hrest
      simpa [Value.prettyItems] using Written.lastItem hline (hv.pretty level) hw
  | cons v' vs ih =>
    cases h with
    | cons hv hrest =>
      have hitems := Written.item hline (hv.pretty level) hnone (ih hrest)
      simpa [Value.prettyItems] using hitems

/-- Members on lines of their own, with blanks behind the last of them. -/
theorem written_memberLines {m : String × Value} {members : List (String × Value)}
    {qs : List (Quoted × Node)} {w : Bytes} (level : Nat)
    (h : List.Forall₂ MemberLaid (m :: members) qs) (hw : Blank w) :
    Written (.members qs)
      (newLine level ++ (quotedBytes m.1 ++ 58 :: 32 :: (m.2.pretty level ++
        (Value.prettyMembers level members ++ w)))) := by
  have hline := blank_newLine level
  have hnone : Blank [] := by decide
  have hspace : Blank [32] := by decide
  induction members generalizing m qs with
  | nil =>
    cases h with
    | @cons _ q _ _ hq hrest =>
      cases hrest
      obtain ⟨key, node⟩ := q
      obtain ⟨⟨ps, rfl, hkey, -⟩, hnode⟩ := hq
      have hlast := Written.lastMember hline hkey hnone hspace (hnode.pretty level) hw
      simpa [Value.prettyMembers, quotedBytes] using hlast
  | cons m' members ih =>
    cases h with
    | @cons _ q _ _ hq hrest =>
      obtain ⟨key, node⟩ := q
      obtain ⟨⟨ps, rfl, hkey, -⟩, hnode⟩ := hq
      have hmember := Written.member hline hkey hnone hspace (hnode.pretty level) hnone (ih hrest)
      simpa [Value.prettyMembers, quotedBytes] using hmember

/-- Partners of all items of a list, in their order. -/
theorem exists_forall₂ {α β : Type} {R : α → β → Prop} {as : List α}
    (h : ∀ a ∈ as, ∃ b, R a b) : ∃ bs, List.Forall₂ R as bs := by
  induction as with
  | nil => exact ⟨[], .nil⟩
  | cons a as ih =>
    obtain ⟨b, hb⟩ := h a (List.mem_cons_self ..)
    obtain ⟨bs, hbs⟩ := ih fun a' ha' => h a' (List.mem_cons_of_mem a ha')
    exact ⟨b :: bs, .cons hb hbs⟩

/-- An integer is one numeral in both layouts. -/
theorem laid_integer (i : Int) :
    Laid (.number (.integer i)) (.numeral ⟨i < 0, Decimal.digits i.natAbs, none, none⟩) := by
  have htext : Number.bytes (.integer i) =
      (if decide (i < 0) then [45] else []) ++ digitBytes (Decimal.digits i.natAbs) := by
    by_cases hi : i < 0 <;> simp [Number.bytes, naturalBytes, digitBytes, hi]
  have hwritten : Written (.value (.numeral ⟨i < 0, Decimal.digits i.natAbs, none, none⟩))
      (Number.bytes (.integer i)) := by
    rw [htext]
    exact .numeral (written_digits _ _)
  exact ⟨hwritten, fun _ => hwritten⟩

/-- An array is laid out if its items are. -/
theorem laid_array {vs : List Value} {nodes : List Node} (h : List.Forall₂ Laid vs nodes) :
    Laid (.array vs) (.array nodes .closed) := by
  cases vs with
  | nil =>
    cases h
    have hempty : Written (.value (.array [] .closed)) [91, 93] := .emptyArray (w := []) (by decide)
    exact ⟨hempty, fun _ => hempty⟩
  | cons v vs =>
    refine ⟨.array (written_items (h.imp fun _ _ hv => hv.compact)), fun level => ?_⟩
    have hlines := written_lines (level + 1) h (blank_newLine level)
    simpa [Value.pretty] using Written.array hlines

/-- An object is laid out if its members are. -/
theorem laid_object {members : List (String × Value)} {qs : List (Quoted × Node)}
    (h : List.Forall₂ MemberLaid members qs) : Laid (.object members) (.object qs .closed) := by
  cases members with
  | nil =>
    cases h
    have hempty : Written (.value (.object [] .closed)) [123, 125] :=
      .emptyObject (w := []) (by decide)
    exact ⟨hempty, fun _ => hempty⟩
  | cons m members =>
    refine ⟨.object (written_members (h.imp fun _ _ hm => hm.printed)), fun level => ?_⟩
    have hlines := written_memberLines (level + 1) h (blank_newLine level)
    simpa [Value.pretty] using Written.object hlines

/-- Both layouts of a value with whole numbers spell one tree. -/
theorem Value.Whole.exists_laid {v : Value} (hwhole : v.Whole) : ∃ node, Laid v node := by
  induction hwhole with
  | null => exact ⟨.null, .null, fun _ => .null⟩
  | boolean b => exact ⟨.boolean b, .boolean b, fun _ => .boolean b⟩
  | integer i => exact ⟨_, laid_integer i⟩
  | string s =>
    obtain ⟨ps, -, hpieces⟩ := exists_pieces s
    exact ⟨_, .quoted hpieces, fun _ => .quoted hpieces⟩
  | array _ ih =>
    obtain ⟨nodes, hnodes⟩ := exists_forall₂ ih
    exact ⟨_, laid_array hnodes⟩
  | @object members _ ih =>
    have hpartners : ∀ m ∈ members, ∃ q, MemberLaid m q := by
      intro m hm
      obtain ⟨node, hnode⟩ := ih m hm
      obtain ⟨ps, -, hkey⟩ := exists_pieces m.1
      exact ⟨(⟨ps, .closed⟩, node), ⟨ps, rfl, hkey, hnode.compact⟩, hnode⟩
    obtain ⟨qs, hqs⟩ := exists_forall₂ hpartners
    exact ⟨_, laid_object hqs⟩

/-- A text spells one tree at most. -/
theorem Written.node_unique {node node' : Node} {text : Bytes}
    (h : Written (.value node) text) (h' : Written (.value node') text) : node = node' := by
  have hdocument := Document.ofBytes_of_written (documentWritten_of_written h)
  rw [Document.ofBytes_of_written (documentWritten_of_written h')] at hdocument
  exact (Document.mk.inj hdocument).1.symm

/-- What the compact text of a value spells, its text on lines spells too. -/
theorem Prints.pretty {v : Value} {form : Node → Prop} (h : Prints v form) (hwhole : v.Whole)
    (level : Nat) : ∃ node, Written (.value node) (v.pretty level) ∧ form node := by
  obtain ⟨node, hwritten, hform⟩ := h
  -- The form is known of the tree of the compact text only, and that tree is unique.
  obtain ⟨node', hlaid⟩ := hwhole.exists_laid
  obtain rfl := hwritten.node_unique hlaid.compact
  exact ⟨node, hlaid.pretty level, hform⟩

/-! ### Values with whole numbers -/

/-- There is no number in `null`. -/
@[simp] theorem Value.whole_null : Value.null.Whole := .null

/-- There is no number in a boolean. -/
@[simp] theorem Value.whole_boolean (b : Bool) : (Value.boolean b).Whole := .boolean b

/-- Integers are whole. -/
@[simp] theorem Value.whole_integer (i : Int) : (Value.number (.integer i)).Whole := .integer i

/-- Natural numbers are whole. -/
@[simp] theorem Value.whole_natural (n : UInt64) : (Value.natural n).Whole := .integer n.toNat

/-- There is no number in a string. -/
@[simp] theorem Value.whole_string (s : String) : (Value.string s).Whole := .string s

/-- The numbers of an array are those of its items. -/
@[simp] theorem Value.whole_array {items : List Value} :
    (Value.array items).Whole ↔ ∀ v ∈ items, v.Whole := by
  constructor
  · rintro ⟨⟩
    assumption
  · exact .array

/-- The numbers of an object are those of its members. -/
@[simp] theorem Value.whole_object {members : List (String × Value)} :
    (Value.object members).Whole ↔ ∀ m ∈ members, m.2.Whole := by
  constructor
  · rintro ⟨⟩
    assumption
  · exact .object

end Json

open Json

/-- Of members that may be missing, those that are there have whole numbers. -/
theorem whole_presentMembers {members : List (String × Option Value)} :
    (Value.object (presentMembers members)).Whole ↔ ∀ m ∈ members, ∀ v ∈ m.2, v.Whole := by
  simp only [Value.whole_object, presentMembers, List.mem_filterMap, Option.map_eq_some_iff]
  constructor
  · intro h m hm v hv
    exact h (m.1, v) ⟨m, hm, v, hv, rfl⟩
  · rintro h _ ⟨m, hm, v, hv, rfl⟩
    exact h m hm v hv

/-- Words are written as strings. -/
@[simp] theorem Word.whole_toJson {width : Nat} (w : Word width) : w.toJson.Whole := .string w.text

/-- The numbers of a function are offsets. -/
@[simp] theorem Function.whole_toJson (f : Function) : f.toJson.Whole := by
  rw [Function.toJson, whole_presentMembers]
  simp [Mutability.toJson]

/-- The numbers of a storage record are offsets. -/
@[simp] theorem StorageRecord.whole_toJson (r : StorageRecord) : r.toJson.Whole := by
  simp [StorageRecord.toJson]

/-- The number of an instruction is an offset. -/
@[simp] theorem Instruction.whole_toJson (i : Instruction) : i.toJson.Whole := by
  simp [Instruction.toJson]

/-- The numbers of a basic block are offsets. -/
@[simp] theorem BasicBlock.whole_toJson (b : BasicBlock) : b.toJson.Whole := by
  simp [BasicBlock.toJson]

/-- The numbers of a computed jump's candidate are offsets. -/
@[simp] theorem DynamicJump.whole_toJson (j : DynamicJump) : j.toJson.Whole := by
  cases h : j.target <;> simp [DynamicJump.toJson, h]

/-- The numbers in the data of a block are offsets. -/
@[simp] theorem Exit.whole_data (exit : Exit) : exit.data.Whole := by
  cases exit <;> simp [Exit.data]

/-- The numbers of a graph are offsets. -/
@[simp] theorem Graph.whole_toJson (g : Graph) : g.toJson.Whole := by
  simp [Graph.toJson, Block.toJson]

/-- A contract holds no numbers but whole ones. -/
theorem Contract.whole_toJson (c : Contract) : c.toJson.Whole := by
  rw [Contract.toJson, whole_presentMembers]
  simp

/-! ### Reading either layout -/

/-- Every layout of a contract is a JSON text from which it is decoded. -/
theorem Contract.decode_layouts (c : Contract) :
    ∀ text ∈ [c.toJson.compact, c.toJson.pretty 0],
      (∃ root, Written (.value root) text) ∧ Contract.decode text = .ok c := by
  have hread : ∀ {root text}, Written (.value root) text → Contract.form c root →
      (∃ root, Written (.value root) text) ∧ Contract.decode text = .ok c := by
    intro root text hwritten hform
    obtain ⟨raw, hread, hofRaw⟩ := rawContract_of_form hform
    exact ⟨⟨root, hwritten⟩,
      decodeWhole_of_written (documentWritten_of_written hwritten) hread hofRaw⟩
  obtain ⟨root, hcompact, hform⟩ := prints_contract c
  obtain ⟨root', hpretty, hform'⟩ := (prints_contract c).pretty c.whole_toJson 0
  simp only [List.forall_mem_cons]
  exact ⟨hread hcompact hform, hread hpretty hform', by simp⟩

end EngineHost
