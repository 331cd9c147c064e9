import EngineHost.Proofs.Contract.EntryPoints
import EngineHost.Proofs.Json.Embedding
import EngineHost.Proofs.Json.Printing

/-!
# Blocks on their own and in a graph

The text of a graph can be put together from the texts of its blocks. Decoding it comes to decoding
the blocks one by one: the graph has the blocks that were decoded, or the fault is that of the first
block that cannot be decoded. A block is read in a graph inside four open containers instead of one,
which leaves its data less room for nesting.
-/

namespace EngineHost

open Json

/-! ### The faults of a block -/

/-- The tags that blocks have. -/
def Exit.tags : List String := ["Terminate", "Jump", "Jumpi", "DynamicJump", "DynamicJumpi"]

/-- The tags without a reader are those that no block has. -/
theorem Wire.exitReader?_eq_none_iff {tag : String} :
    Wire.exitReader? tag = none ↔ tag ∉ Exit.tags := by
  unfold Wire.exitReader? Exit.tags
  split_ifs <;> simp_all

/-- A fault in the data of a block names the block. -/
theorem DecodeFault.message_data (start : UInt64) (tag : String) (reason : Fault) :
    (DecodeFault.schema (.data start tag reason)).message =
      "SCHEMA_ERROR: block " ++ Decimal.text start.toNat ++ " (" ++ tag ++ "): " ++
        reason.message := by
  have hopening : "SCHEMA_ERROR: block " = "SCHEMA_ERROR: " ++ "block " := by decide +kernel
  simp only [DecodeFault.message, DecodeFault.kind, SchemaFault.message, String.append_assoc,
    String.reduceAppend]
  rw [hopening, String.append_assoc]

/-- What can be wrong with a block whose data is untyped: its tag, whatever its data, or else the
data that the tag announces. -/
theorem Block.ofRaw_fault (raw : Wire.RawBlock) :
    (raw.tag ∉ Exit.tags → Block.ofRaw raw = .error (.unknownTag raw.tag (some raw.start))) ∧
    (raw.tag ∈ Exit.tags → ∀ fault, Block.ofRaw raw = .error fault →
      ∃ reason, fault = .schema (.data raw.start raw.tag reason) ∧
        fault.message = "SCHEMA_ERROR: block " ++ Decimal.text raw.start.toNat ++ " (" ++ raw.tag ++
          "): " ++ reason.message) := by
  unfold Block.ofRaw
  constructor
  · intro htag
    rw [Wire.exitReader?_eq_none_iff.mpr htag]
  · intro htag fault hfault
    cases hreader : Wire.exitReader? raw.tag with
    | none => exact absurd htag (Wire.exitReader?_eq_none_iff.mp hreader)
    | some read =>
      rw [hreader] at hfault
      dsimp only at hfault
      cases hdata : read raw.data with
      | ok exit => simp [hdata] at hfault
      | error reason =>
        rw [hdata] at hfault
        cases hfault
        exact ⟨reason, rfl, DecodeFault.message_data ..⟩

/-! ### The text of a graph -/

/-- A text that can be read as a block with untyped data, and in which no more than `124` arrays and
objects are open at once. -/
structure RawBlockText (raw : Wire.RawBlock) (t : Bytes) : Prop where
  read : readWhole (Wire.rawBlockRecord 1).read t = .ok raw
  depth_le : (Document.ofBytes t).root.depth ≤ 124

/-- The text of a contract whose only section is a graph with these texts of blocks. -/
def graphText (ts : List Bytes) : Bytes :=
  Bytes.ofText "\x7b\"control_flow_graph\":\x7b\"blocks\":[" ++ [44].intercalate ts ++
    Bytes.ofText "]\x7d\x7d"

/-- A node from which a block is read has no fault. -/
theorem Wire.check_of_rawBlock {depth : Nat} {node : Node} {raw : Wire.RawBlock}
    (hread : (Wire.rawBlockRecord depth).read node = .ok raw) : node.check = .ok () := by
  refine Record.check_of_read ?_ hread
  simp only [Wire.rawBlockRecord, List.forall_mem_cons]
  refine ⟨?_, ?_, ?_, ?_, fun field hfield => by cases hfield⟩
  all_goals
    intro v d d' hfill
    obtain ⟨x, hx, -⟩ := map_eq_ok_iff.mp hfill
  · exact Read.check_of_offset hx
  · exact Read.check_of_offset hx
  · exact Read.check_of_string hx
  · exact Node.check_of_value hx

/-- A block is read alike inside more open containers, if its nesting leaves room for them. -/
theorem Wire.rawBlock_of_depth_le {depth depth' : Nat} {node : Node} {raw : Wire.RawBlock}
    (hread : (Wire.rawBlockRecord depth).read node = .ok raw)
    (hdepth : node.depth + depth' ≤ nestingLimit + 1) :
    (Wire.rawBlockRecord depth').read node = .ok raw := by
  have hfields : List.Forall₂ (Field.Follows (·.depth < node.depth))
      (Wire.rawBlockRecord depth).fields (Wire.rawBlockRecord depth').fields := by
    refine .cons (.refl _ _) (.cons (.refl _ _) (.cons (.refl _ _) (.cons ?_ .nil)))
    refine ⟨rfl, rfl, rfl, rfl, fun v d d' hv hfill => ?_⟩
    obtain ⟨x, hx, rfl⟩ := map_eq_ok_iff.mp hfill
    exact map_eq_ok_iff.mpr ⟨x, Node.value_of_depth_le hx (by omega), rfl⟩
  exact Record.read_of_follows hfields rfl rfl (Nat.le_refl _) hread

/-- A text that spells a value spells no more than that. -/
theorem Json.Scan.Scanned.document {node : Node} {text : Bytes}
    (hnode : Scan.Scanned (.value node) text) : Document.ofBytes text = ⟨node, false⟩ :=
  (hnode [] .plain).finish

/-- An object with a single member, written without blanks. -/
theorem Json.Scan.Scanned.sole (name : String) {node : Node} {text : Bytes}
    (hnode : Scan.Scanned (.value node) text) :
    ∃ key : Quoted, key.text = .ok name ∧
      Scan.Scanned (.value (.object [(key, node)] .closed))
        (123 :: 34 :: ((Bytes.ofText name).flatMap escapeByte ++ 34 :: 58 :: (text ++ [125]))) := by
  have hnone : Blank [] := by decide
  obtain ⟨pieces, hpieces, hwritten⟩ := exists_pieces name
  refine ⟨⟨pieces, .closed⟩, Quoted.text_of_spelled hpieces, ?_⟩
  simpa using (Scan.Scanned.lastMember hnone hwritten hnone hnone hnode hnone).object

/-- The text of a graph spells the trees of its blocks, inside two objects and an array. -/
theorem ofBytes_graphText {ts : List Bytes} {nodes : List Node}
    (hts : List.Forall₂ (fun node t => Scan.Scanned (.value node) t) nodes ts) :
    ∃ graphKey blocksKey : Quoted,
      graphKey.text = .ok "control_flow_graph" ∧ blocksKey.text = .ok "blocks" ∧
      Document.ofBytes (graphText ts) =
        ⟨.object [(graphKey, .object [(blocksKey, .array nodes .closed)] .closed)] .closed,
          false⟩ := by
  obtain ⟨blocksKey, hblocks, hinner⟩ := (Scan.scanned_intercalate hts).sole "blocks"
  obtain ⟨graphKey, hgraph, houter⟩ := hinner.sole "control_flow_graph"
  refine ⟨graphKey, blocksKey, hgraph, hblocks, ?_⟩
  have hopening : Bytes.ofText "\x7b\"control_flow_graph\":\x7b\"blocks\":[" =
      123 :: 34 :: ((Bytes.ofText "control_flow_graph").flatMap escapeByte ++
        34 :: 58 :: 123 :: 34 ::
          ((Bytes.ofText "blocks").flatMap escapeByte ++ [34, 58, 91])) := by
    decide +kernel
  have hclosing : Bytes.ofText "]\x7d\x7d" = [93, 125, 125] := by decide +kernel
  simpa [graphText, hopening, hclosing] using houter.document

/-- A contract with a graph as its only section. -/
theorem Wire.contractRecord_of_graph {graphKey blocksKey : Quoted} {nodes : List Node}
    {raws : List Wire.RawBlock} (hgraph : graphKey.text = .ok "control_flow_graph")
    (hblocks : blocksKey.text = .ok "blocks")
    (hraws : List.Forall₂ (fun raw node => (Wire.rawBlockRecord 4).read node = .ok raw)
      raws nodes) :
    Wire.contractRecord.read
        (.object [(graphKey, .object [(blocksKey, .array nodes .closed)] .closed)] .closed) =
      .ok { blocks := some raws } := by
  have hlist : Read.list (Wire.rawBlockRecord 4).read (.array nodes .closed) = .ok raws :=
    Read.list_eq_ok_iff.mpr ⟨nodes, rfl, hraws⟩
  have hothers : ∀ m ∈ ([] ++ [] : List (Quoted × Node)), Record.Skipped "blocks" m := by simp
  have hread : (graphRecord "WireControlFlowGraph" (rawBlockRecord 4).read).read
      (.object [(blocksKey, .array nodes .closed)] .closed) = .ok raws :=
    graphRecord_eq_ok_iff.mpr ⟨_, .member hblocks hothers, hlist⟩
  refine Record.read_eq_ok_iff.mpr ⟨{ blocks := some (some raws) }, .members ?_, rfl⟩
  change Record.fillMembers contractRecord.fields [(graphKey.text, _)] _ = _
  rw [hgraph]
  simp [Record.fillMembers, contractRecord, Field.answers, Field.filled, Field.fill, Read.optional,
    Source.isNull, Node.isNull, hread, Except.map]

/-- The tree of a text that can be read as a block, and how it is read in a graph. -/
theorem RawBlockText.scanned {raw : Wire.RawBlock} {t : Bytes} (ht : RawBlockText raw t) :
    ∃ node, Scan.Scanned (.value node) t ∧ (Wire.rawBlockRecord 4).read node = .ok raw := by
  obtain ⟨hread, htrailing⟩ := readWhole_eq_ok_iff.mp ht.read
  have hdocument : Document.ofBytes t = ⟨(Document.ofBytes t).root, false⟩ := by
    rw [← htrailing]
  refine ⟨(Document.ofBytes t).root,
    Scan.scanned_of_check hdocument (Wire.check_of_rawBlock hread),
    Wire.rawBlock_of_depth_le hread ?_⟩
  have hdepth := ht.depth_le
  have hlimit : nestingLimit = 127 := rfl
  omega

/-- On its own, the text is decoded to what its block with untyped data is converted to. -/
theorem RawBlockText.decode {raw : Wire.RawBlock} {t : Bytes} (ht : RawBlockText raw t) :
    Block.decode t = Block.ofRaw raw := by
  rw [Block.decode, decodeWhole, ht.read]

/-- Texts of blocks are converted to the blocks that they describe. -/
theorem Block.ofRaws_of_decode {raws : List Wire.RawBlock} {ts : List Bytes} {blocks : List Block}
    (hts : List.Forall₂ RawBlockText raws ts)
    (hblocks : List.Forall₂ (fun b t => Block.decode t = .ok b) blocks ts) :
    Block.ofRaws raws = .ok blocks := by
  induction hts generalizing blocks with
  | nil =>
    cases hblocks
    rfl
  | cons ht _ ih =>
    obtain _ | ⟨hb, hrest⟩ := hblocks
    rw [Block.ofRaws, ← ht.decode, hb, ih hrest]
    rfl

/-- The first text that describes no block decides. -/
theorem Block.ofRaws_of_first {raws : List Wire.RawBlock} {front back : List Bytes} {t : Bytes}
    {fault : DecodeFault} (hts : List.Forall₂ RawBlockText raws (front ++ t :: back))
    (hfront : ∀ u ∈ front, ∃ b, Block.decode u = .ok b) (hfault : Block.decode t = .error fault) :
    Block.ofRaws raws = .error fault := by
  induction front generalizing raws with
  | nil =>
    obtain _ | ⟨ht, -⟩ := hts
    rw [Block.ofRaws, ← ht.decode, hfault]
  | cons u front ih =>
    obtain _ | ⟨hu, hrest⟩ := hts
    rw [List.forall_mem_cons] at hfront
    obtain ⟨⟨b, hb⟩, hfront⟩ := hfront
    rw [Block.ofRaws, ← hu.decode, hb, ih hrest hfront]
    rfl

/-- A graph is decoded by converting its blocks. -/
theorem Contract.decode_graphText_eq {ts : List Bytes} {raws : List Wire.RawBlock}
    (hts : List.Forall₂ RawBlockText raws ts) :
    Contract.decode (graphText ts) =
      (Block.ofRaws raws).map fun blocks => { controlFlowGraph := some ⟨blocks⟩ } := by
  obtain ⟨nodes, hscanned, hraws⟩ : ∃ nodes : List Node,
      List.Forall₂ (fun node t => Scan.Scanned (.value node) t) nodes ts ∧
      List.Forall₂ (fun raw node => (Wire.rawBlockRecord 4).read node = .ok raw) raws nodes := by
    induction hts with
    | nil => exact ⟨[], .nil, .nil⟩
    | cons ht _ ih =>
      obtain ⟨node, hnode, hread⟩ := ht.scanned
      obtain ⟨nodes, hscanned, hraws⟩ := ih
      exact ⟨node :: nodes, .cons hnode hscanned, .cons hread hraws⟩
  obtain ⟨graphKey, blocksKey, hgraph, hblocks, hdocument⟩ := ofBytes_graphText hscanned
  have hread := Wire.contractRecord_of_graph hgraph hblocks hraws
  have hwhole :
      readWhole Wire.contractRecord.read (graphText ts) = .ok { blocks := some raws } := by
    rw [readWhole_eq_ok_iff, hdocument]
    exact ⟨hread, rfl⟩
  rw [Contract.decode, decodeWhole, hwhole]
  rfl

/-- Texts of blocks have their blocks in the same order. -/
theorem RawBlockText.exists_raws {ts : List Bytes} (hts : ∀ t ∈ ts, ∃ raw, RawBlockText raw t) :
    ∃ raws, List.Forall₂ RawBlockText raws ts := by
  induction ts with
  | nil => exact ⟨[], .nil⟩
  | cons t ts ih =>
    rw [List.forall_mem_cons] at hts
    obtain ⟨⟨raw, hraw⟩, hrest⟩ := hts
    obtain ⟨raws, hraws⟩ := ih hrest
    exact ⟨raw :: raws, .cons hraw hraws⟩

/-- Texts that can be read as blocks, put into a graph, are decoded one by one: to the blocks that
they describe, in order, or else to the fault of the first one that describes no block. That fault
is the tag, whatever the data, if no block has such a tag, and the data otherwise. -/
theorem Contract.decode_graphText (ts : List Bytes) (hts : ∀ t ∈ ts, ∃ raw, RawBlockText raw t) :
    (∀ blocks, List.Forall₂ (fun b t => Block.decode t = .ok b) blocks ts →
      Contract.decode (graphText ts) = .ok { controlFlowGraph := some ⟨blocks⟩ }) ∧
    (∀ front t back fault, ts = front ++ t :: back →
      (∀ u ∈ front, ∃ b, Block.decode u = .ok b) → Block.decode t = .error fault →
      Contract.decode (graphText ts) = .error fault) ∧
    ∀ t ∈ ts, ∀ raw, RawBlockText raw t →
      (raw.tag ∉ Exit.tags → Block.decode t = .error (.unknownTag raw.tag (some raw.start))) ∧
      (raw.tag ∈ Exit.tags → ∀ fault, Block.decode t = .error fault →
        ∃ reason, fault = .schema (.data raw.start raw.tag reason) ∧
          fault.message = "SCHEMA_ERROR: block " ++ Decimal.text raw.start.toNat ++ " (" ++
            raw.tag ++ "): " ++ reason.message) := by
  obtain ⟨raws, hraws⟩ := RawBlockText.exists_raws hts
  rw [Contract.decode_graphText_eq hraws]
  refine ⟨fun blocks hblocks => ?_, fun front t back fault hsplit hfront hfault => ?_,
    fun t _ raw hraw => ?_⟩
  · rw [Block.ofRaws_of_decode hraws hblocks]
    rfl
  · subst hsplit
    rw [Block.ofRaws_of_first hraws hfront hfault]
    rfl
  · rw [hraw.decode]
    exact Block.ofRaw_fault raw

/-- A block that ends execution, written as an array. -/
def terminateText : Bytes := Bytes.ofText "[0,1,\"Terminate\",\x7b\"success\":true\x7d]"

/-- A block whose data lacks the place that its tag announces. -/
def unplacedJumpText : Bytes :=
  Bytes.ofText "\x7b\"type\":\"Jump\",\"start\":3,\"end\":4,\"data\":\x7b\x7d\x7d"

/-- A block whose tag is unknown. -/
def unknownTagText : Bytes :=
  Bytes.ofText "\x7b\"start\":7,\"end\":9,\"data\":[[null]],\"type\":\"Nope\"\x7d"

/-- Of two texts that describe no block, the first one decides. -/
theorem Contract.decode_graphText_unplacedJump :
    Contract.decode (graphText [terminateText, unplacedJumpText, unknownTagText]) =
        .error (.schema (.data 3 "Jump" (.missingField "to"))) ∧
      Contract.decode (graphText [terminateText, unknownTagText, unplacedJumpText]) =
        .error (.unknownTag "Nope" (some 7)) ∧
      Contract.decode (graphText [terminateText, terminateText]) =
        .ok { controlFlowGraph := some ⟨[⟨0, 1, .terminate true⟩, ⟨0, 1, .terminate true⟩]⟩ } := by
  have hterminate : ∃ raw, RawBlockText raw terminateText :=
    ⟨⟨0, 1, "Terminate", .object [("success", .boolean true)]⟩, rfl, by decide +kernel⟩
  have hjump : ∃ raw, RawBlockText raw unplacedJumpText :=
    ⟨⟨3, 4, "Jump", .object []⟩, rfl, by decide +kernel⟩
  have hnope : ∃ raw, RawBlockText raw unknownTagText :=
    ⟨⟨7, 9, "Nope", .array [.array [.null]]⟩, rfl, by decide +kernel⟩
  have hok : Block.decode terminateText = .ok ⟨0, 1, .terminate true⟩ := rfl
  have hfront : ∀ u ∈ [terminateText], ∃ b, Block.decode u = .ok b := by simp [hok]
  refine ⟨?_, ?_, ?_⟩
  · exact (Contract.decode_graphText _ (by simp [hterminate, hjump, hnope])).2.1
      [terminateText] unplacedJumpText [unknownTagText] _ rfl hfront rfl
  · exact (Contract.decode_graphText _ (by simp [hterminate, hjump, hnope])).2.1
      [terminateText] unknownTagText [unplacedJumpText] _ rfl hfront rfl
  · exact (Contract.decode_graphText _ (by simp [hterminate])).1 _ (.cons hok (.cons hok .nil))

end EngineHost
