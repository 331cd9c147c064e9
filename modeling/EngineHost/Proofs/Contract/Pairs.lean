import EngineHost.Proofs.Contract.EntryPoints
import EngineHost.Proofs.Contract.Places
import EngineHost.Proofs.Contract.Reading
import EngineHost.Proofs.Json.Embedding
import EngineHost.Proofs.Json.Printing

/-!
# Pairs in a contract

Instructions and basic blocks are written as arrays of two items. An array of another length among
them is refused with its length, however many items it has and whatever they and the rest of the
text are.
-/

namespace EngineHost

open Json

namespace Json

variable {α β : Type}

/-- A list of checked nodes has as many entries as there are nodes. -/
theorem Read.items_check {nodes : List Node} (hnodes : ∀ node ∈ nodes, node.check = .ok ()) :
    Read.items Source.check none nodes = .ok (List.replicate nodes.length ()) := by
  induction nodes with
  | nil => rfl
  | cons node rest ih =>
    rw [List.forall_mem_cons] at hnodes
    have hnode : Source.check node = .ok () := hnodes.1
    simp only [Read.items, hnode, ih hnodes.2, Except.map, List.length_cons, List.replicate_succ]

/-- A pair of the wrong length is refused with its length, surplus items included. -/
theorem Read.pair_of_length {first : Node → Except Fault α} {second : Node → Except Fault β}
    {xs : List Node} (hfirst : ∀ x, xs[0]? = some x → ∃ a, first x = .ok a)
    (hsecond : ∀ y, xs[1]? = some y → ∃ b, second y = .ok b)
    (hcheck : ∀ x ∈ xs, x.check = .ok ()) (hlength : xs.length ≠ 2) (what : String) :
    Read.pair what first second (.array xs .closed) = .error (Read.pairFault what xs.length) := by
  match xs with
  | [] => rfl
  | [x] =>
    obtain ⟨a, ha⟩ := hfirst x rfl
    simp only [Read.pair, Source.view, Node.view, ha]
    rfl
  | [x, y] => exact absurd rfl hlength
  | x :: y :: z :: more =>
    obtain ⟨a, ha⟩ := hfirst x rfl
    obtain ⟨b, hb⟩ := hsecond y rfl
    have hsurplus : ∀ node ∈ z :: more, node.check = .ok () := fun node hnode =>
      hcheck node (List.mem_cons_of_mem x (List.mem_cons_of_mem y hnode))
    have hcount : 3 + more.length = (x :: y :: z :: more).length := by
      simp only [List.length_cons]
      omega
    simp only [Read.pair, Source.view, Node.view, ha, hb, ArrayEnd.next?,
      Read.items_check hsurplus, List.length_cons, List.replicate_succ, List.length_replicate]
    rw [hcount]
    rfl

end Json

/-- A text up to the closing bracket of the array `xs`: it opens a contract whose first section has
one of these names, and lists these pairs before the array. -/
inductive ListedUpTo {α : Type} (names : List String) (form : Form Node α) (before : List α)
    (xs : List Node) : Quoted → List Node → Bytes → Prop where
  | mk {name : String} {ps : List Piece} {nodes : List Node} {lead text : Bytes}
    (hname : name ∈ names) (hkey : Spelled name.toList ps)
    (hbefore : List.Forall₂ form before nodes)
    (hlead : Lead [.items nodes.reverse, .member [] ⟨ps, .closed⟩] lead)
    (hxs : Written (.value (.array xs .closed)) text) :
    ListedUpTo names form before xs ⟨ps, .closed⟩ nodes (lead ++ text)

/-- The items of the array are free of faults. -/
theorem ListedUpTo.check_of_mem {α : Type} {names : List String} {form : Form Node α}
    {before : List α} {xs nodes : List Node} {key : Quoted} {text : Bytes}
    (hlisted : ListedUpTo names form before xs key nodes text) : ∀ x ∈ xs, x.check = .ok () := by
  cases hlisted with
  | mk _ _ _ _ hxs =>
    have hcheck : Node.checkItems .closed xs = .ok () := faultless_of_written hxs
    exact (Node.checkItems_eq_ok_iff.mp hcheck).2

/-- A section of a contract that lists pairs: how it is read, and the contract that has nothing
else. -/
structure ListSection {α : Type} (names : List String) (place : Nat) (form : Form Node α)
    (item : Node → Except Fault α) (put : Option (List α) → Wire.ContractDraft → Wire.ContractDraft)
    (whole : List α → Contract) : Prop where
  field : Wire.contractRecord.HasField names place (Read.optional (Read.list item)) put
  blank : Wire.contractRecord.beforeMember place [] = .ok Wire.contractRecord.blank
  reads : Reads form item
  pair : ∃ a v, form a v ∧ v.isNull = .ok false
  whole : ∀ as, ∃ raw, Wire.contractRecord.build (put (some as) Wire.contractRecord.blank) =
    .ok raw ∧ Contract.ofRaw raw = .ok (whole as)

namespace ListSection

variable {α : Type} {names : List String} {place : Nat} {form : Form Node α}
  {item : Node → Except Fault α} {put : Option (List α) → Wire.ContractDraft → Wire.ContractDraft}
  {whole : List α → Contract}

/-- A contract of one section is read as its list. -/
theorem read_plug (hsection : ListSection names place form item put whole) {key : Quoted}
    {name : String} (hkey : key.text = .ok name) (hname : name ∈ names) {before after : List α}
    {nodes nodes' : List Node} (hbefore : List.Forall₂ form before nodes)
    (hafter : List.Forall₂ form after nodes') {a : α} {v : Node} (hv : form a v) :
    ∃ raw, Wire.contractRecord.read
      (plug [.items nodes.reverse nodes', .member [] key []] v) = .ok raw ∧
        Contract.ofRaw raw = .ok (whole (before ++ a :: after)) := by
  have hlist : Read.list item (.array (nodes ++ v :: nodes') .closed) =
      .ok (before ++ a :: after) :=
    reads_list hsection.reads
      ⟨_, .array _, List.rel_append hbefore (.cons hv hafter)⟩
  have hsome : Read.optional (Read.list item) (.array (nodes ++ v :: nodes') .closed) =
      .ok (some (before ++ a :: after)) := by
    simp only [Read.optional, Source.isNull, Node.isNull, hlist, Except.map]
  have hview : Source.view (plug [.items nodes.reverse nodes', .member [] key []] v) =
      .ok (.object ([] ++ (.ok name, .array (nodes ++ v :: nodes') .closed) :: []) none) := by
    simp [plug, Surround.fill, Source.view, Node.view, hkey, ObjectEnd.next?]
  obtain ⟨raw, hbuild, hraw⟩ := hsection.whole (before ++ a :: after)
  refine ⟨raw, ?_, hraw⟩
  rw [hsection.field.read_member hname hview, hsection.blank, hsome]
  exact hbuild

/-- A pair is listed between those before it and those behind it. -/
theorem decode_of_form (hsection : ListSection names place form item put whole)
    {before after : List α} {xs nodes nodes' : List Node} {key : Quoted} {text tail : Bytes}
    (hlisted : ListedUpTo names form before xs key nodes text)
    (hafter : List.Forall₂ form after nodes')
    (htrail : Trail [.items nodes.reverse nodes', .member [] key []] tail) {a : α}
    (ha : form a (.array xs .closed)) :
    Contract.decode (text ++ tail) = .ok (whole (before ++ a :: after)) := by
  cases hlisted with
  | mk hname hkey hbefore hlead hxs =>
    obtain ⟨raw, hread, hraw⟩ :=
      hsection.read_plug (Quoted.text_of_spelled hkey) hname hbefore hafter ha
    have hdocument := htrail.ofBytes_plug hlead hxs
    refine decodeWhole_eq_ok_iff.mpr ⟨raw, readWhole_eq_ok_iff.mpr ?_, hraw⟩
    rw [List.append_assoc, hdocument]
    exact ⟨hread, rfl⟩

/-- An array that is no pair is refused, whatever follows it. -/
theorem decode_of_fault (hsection : ListSection names place form item put whole)
    {before : List α} {xs nodes : List Node} {key : Quoted} {text : Bytes}
    (hlisted : ListedUpTo names form before xs key nodes text) {f : Fault}
    (hfault : item (.array xs .closed) = .error f) (tail : Bytes) :
    Contract.decode (text ++ tail) = .error (.schema (.text f)) := by
  cases hlisted with
  | @mk name ps _ lead text hname hkey hbefore hlead hxs =>
    have htext := Quoted.text_of_spelled hkey
    obtain ⟨a, v, hv, hnull⟩ := hsection.pair
    -- The text would be read if a pair stood in place of the array.
    obtain ⟨raw, hread, -⟩ := hsection.read_plug htext hname hbefore .nil hv
    have hat := at_plug [.items nodes.reverse [], .member [] ⟨ps, .closed⟩ []] v
    have hat' := hlead.at_of_closed hxs nofun tail
    have halong : Along [.items nodes.reverse, .member [] ⟨ps, .closed⟩]
        [.item nodes.length, .field names place] :=
      .cons (by simp [Frame.opening, Opening.Takes]) (.cons ⟨name, hname, htext⟩ .nil)
    have hfocus := (Focus.field hsection.field).trans (Focus.list item nodes.length).optional
    rw [List.append_assoc]
    exact decodeWhole_of_fault ((hfocus.fault_of_at halong hat hat' hnull rfl hread).2 f hfault)

/-- What becomes of an array `xs` in a section that lists pairs with these two kinds of items. As a
pair it is one of the list. With any other length it is refused with that length, whatever bytes
follow its closing bracket. -/
def TakesPairs (names : List String) (what : String) (form : Form Node α)
    (first second : Node → Prop) (whole : List α → Contract) : Prop :=
  ∀ {before : List α} {xs nodes : List Node} {key : Quoted} {text : Bytes},
    ListedUpTo names form before xs key nodes text → (∀ x, xs[0]? = some x → first x) →
    (∀ y, xs[1]? = some y → second y) →
    (xs.length = 2 → ∃ a, form a (.array xs .closed) ∧
      ∀ after nodes' tail, List.Forall₂ form after nodes' →
        Trail [.items nodes.reverse nodes', .member [] key []] tail →
        Contract.decode (text ++ tail) = .ok (whole (before ++ a :: after))) ∧
    (xs.length ≠ 2 → ∀ tail, Contract.decode (text ++ tail) =
      .error (.schema (.text (.refused
        (what ++ ": expected array of 2 elements, got " ++ Decimal.text xs.length)))))

/-- A section that lists pairs takes arrays of two items and refuses all others with their length.
-/
theorem takesPairs (hsection : ListSection names place form item put whole) {what : String}
    {first second : Node → Prop} {β γ : Type} {readFirst : Node → Except Fault β}
    {readSecond : Node → Except Fault γ} {make : β × γ → α}
    (hitem : ∀ v, item v = (Read.pair what readFirst readSecond v).map make)
    (hform : ∀ x y, first x → second y → ∃ a, form a (.array [x, y] .closed))
    (hfirst : ∀ x, first x → ∃ b, readFirst x = .ok b)
    (hsecond : ∀ y, second y → ∃ c, readSecond y = .ok c) :
    TakesPairs names what form first second whole := by
  intro before xs nodes key text hlisted hx hy
  refine ⟨fun hlength => ?_, fun hlength tail => ?_⟩
  · obtain ⟨x, y, rfl⟩ := List.length_eq_two.mp hlength
    obtain ⟨a, ha⟩ := hform x y (hx x rfl) (hy y rfl)
    refine ⟨a, ha, fun after nodes' tail hafter htrail => ?_⟩
    exact hsection.decode_of_form hlisted hafter htrail ha
  · refine hsection.decode_of_fault hlisted ?_ tail
    have hfault := Read.pair_of_length (fun x h => hfirst x (hx x h))
      (fun y h => hsecond y (hy y h)) hlisted.check_of_mem hlength what
    rw [hitem, hfault]
    rfl

end ListSection

/-- The instructions are a section that lists pairs. -/
theorem listSection_disassembled : ListSection ["disassembled"] 2 Instruction.form Wire.instruction
    (fun x d => { d with disassembled := some x }) fun is => { disassembled := some is } where
  field := Wire.stores_disassembled.toHasField
  blank := rfl
  reads := reads_instruction
  pair := ⟨⟨0, ""⟩, _, ⟨_, _, .array _, .natural (by decide), .text .nil⟩, rfl⟩
  whole := fun as => ⟨_, rfl, rfl⟩

/-- The basic blocks are a section that lists pairs. -/
theorem listSection_basicBlocks :
    ListSection ["basic_blocks", "basicBlocks"] 3 BasicBlock.form Wire.basicBlock
      (fun x d => { d with basicBlocks := some x }) fun bs => { basicBlocks := some bs } where
  field := Wire.stores_basicBlocks.toHasField
  blank := rfl
  reads := reads_basicBlock
  pair := ⟨⟨0, 0⟩, _, ⟨_, _, .array _, .natural (by decide), .natural (by decide)⟩, rfl⟩
  whole := fun as => ⟨_, rfl, rfl⟩

/-- Among the instructions or the basic blocks of a contract, an array of two items is one of them,
and an array of any other length is refused with its length. -/
theorem Contract.decode_pairs :
    ListSection.TakesPairs ["disassembled"] "instruction" Instruction.form
      (fun x => ∃ n, Form.offset n x) (fun y => ∃ s, Form.text s y)
      (fun is => { disassembled := some is }) ∧
    ListSection.TakesPairs ["basic_blocks", "basicBlocks"] "basic block" BasicBlock.form
      (fun x => ∃ n, Form.offset n x) (fun y => ∃ n, Form.offset n y)
      (fun bs => { basicBlocks := some bs }) := by
  have hoffset : ∀ x : Node, (∃ n, Form.offset n x) → ∃ n, Read.offset x = .ok n :=
    fun x ⟨n, hn⟩ => ⟨n, reads_offset hn⟩
  have htext : ∀ y : Node, (∃ s, Form.text s y) → ∃ s, Read.string y = .ok s :=
    fun y ⟨s, hs⟩ => ⟨s, reads_text hs⟩
  constructor
  · refine listSection_disassembled.takesPairs (fun _ => rfl) ?_ hoffset htext
    rintro x y ⟨n, hn⟩ ⟨s, hs⟩
    exact ⟨⟨n, s⟩, x, y, .array _, hn, hs⟩
  · refine listSection_basicBlocks.takesPairs (fun _ => rfl) ?_ hoffset hoffset
    rintro x y ⟨n, hn⟩ ⟨n', hn'⟩
    exact ⟨⟨n, n'⟩, x, y, .array _, hn, hn'⟩

/-- An instruction with three items is refused with this number, in a text that is never finished.
-/
theorem Contract.decode_pairs_threeItems :
    Contract.decode (Bytes.ofText "\x7b\"disassembled\":[[1,\"ADD\",[null]]@") =
      .error (.schema (.text (.refused
        "instruction: expected array of 2 elements, got 3"))) := by
  have hnone : Blank [] := by decide
  obtain ⟨key, hkey, hkeyText⟩ := exists_pieces "disassembled"
  obtain ⟨one, honeText, hone⟩ := prints_offset 1
  obtain ⟨add, haddText, hadd⟩ := prints_text "ADD"
  have hlead := Lead.firstItem (.firstMember (.top hnone) hnone hkeyText hnone hnone) hnone
  have hxs := Written.array (.item hnone honeText hnone (.item hnone haddText hnone
    (.lastItem hnone (.array (.lastItem hnone .null hnone)) hnone)))
  have hlisted : ListedUpTo ["disassembled"] Instruction.form [] _ _ _ _ :=
    .mk (List.mem_singleton_self _) hkey .nil hlead hxs
  have hfault := (Contract.decode_pairs.1 hlisted
    (fun x hx => ⟨1, Option.some.inj hx ▸ hone⟩) fun y hy => ⟨"ADD", Option.some.inj hy ▸ hadd⟩).2
    (by simp) (Bytes.ofText "@")
  have hmessage : "instruction" ++ ": expected array of 2 elements, got " ++ Decimal.text 3 =
      "instruction: expected array of 2 elements, got 3" := by decide +kernel
  rw [← hmessage]
  exact (congrArg Contract.decode (by decide +kernel)).trans hfault

end EngineHost
