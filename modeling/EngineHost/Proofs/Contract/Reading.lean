import EngineHost.Contract.Decode
import EngineHost.Proofs.Contract.Draft
import EngineHost.Proofs.Contract.Form
import EngineHost.Proofs.Json.Printing
import EngineHost.Proofs.Json.Reading
import EngineHost.Proofs.Json.Scanning
import EngineHost.Proofs.Json.Untyped

/-!
# Reading a contract from its spellings

Each record of a contract is read from every object that describes it. The data of a block takes a
way of its own: it is read untyped with the text and typed afterwards. Main statement: a contract
is decoded from every text that writes it.
-/

namespace EngineHost

open Json

/-- A well-formed node passes its check. -/
theorem check_of_wellFormed (node : Node) (hnode : WellFormed node) : Source.check node = .ok () :=
  hnode.check_eq_ok

/-! ### Functions -/

/-- Selectors are read from their texts. -/
theorem reads_selector : Reads Selector.form Wire.selector := by
  rintro w v ⟨s, hnamed, hs⟩
  simp [Wire.selector, reads_text hs, Selector.parse, Word.parse_of_named hnamed]

/-- Slots are read from their texts. -/
theorem reads_slot : Reads Slot.form Wire.slot := by
  rintro w v ⟨s, hnamed, hs⟩
  simp [Wire.slot, reads_text hs, Slot.parse, Word.parse_of_named hnamed]

/-- Mutabilities are read from their names. -/
theorem reads_mutability : Reads Mutability.form Wire.mutability := by
  intro m v hv
  cases hv with
  | text hs =>
    have hname : Wire.mutabilityOfName m.name = .ok m := by cases m <;> rfl
    simp [Wire.mutability, Quoted.text_of_spelled hs, hname]

/-- No mutability is written as `null`. -/
theorem neverNull_mutability : NeverNull Mutability.form := fun _ _ hv => neverNull_text hv

/-- The record of functions reads the parts of every function. -/
theorem functionRecord_fits (f : Function) :
    Wire.functionRecord.Fits f.parts [
      (·.selector = some f.selector),
      (·.bytecodeOffset = some f.bytecodeOffset),
      (·.arguments.getD none = f.arguments),
      (·.mutability.getD none = f.mutability)] where
  toLaidOut := Wire.functionRecord_laidOut
  fields_eq := rfl
  parts_eq := rfl
  holds_eq := rfl
  sound := by
    simp only [Record.fieldParts, Wire.functionRecord, Function.parts, List.zipWith3,
      List.forall_mem_cons]
    refine ⟨?_, ?_, ?_, ?_, fun e he => by cases he⟩
    · exact .required reads_selector rfl fun _ => rfl
    · exact .required reads_offset rfl fun _ => rfl
    · exact .omissible (reads_option reads_text neverNull_text) rfl fun _ => rfl
    · exact .omissible (reads_option reads_mutability neverNull_mutability) rfl fun _ => rfl

/-- Functions are read from the objects that describe them. -/
theorem reads_function : Reads Function.form Wire.functionRecord.read := by
  rintro f v ⟨members, hv, hmembers⟩
  obtain ⟨d, hread, hholds⟩ :=
    Record.read_of_describes (functionRecord_fits f) check_of_wellFormed hmembers hv
  simp only [List.forall_mem_cons] at hholds
  obtain ⟨hselector, hoffset, harguments, hmutability, _⟩ := hholds
  rw [hread]
  simp [Wire.functionRecord, hselector, hoffset, harguments, hmutability, require, bind,
    Except.bind, pure, Except.pure]

/-! ### Storage -/

/-- The bytes of a slot are read from their numbers. -/
theorem reads_slotOffset :
    Reads (fun (offset : Fin 32) (v : Node) => Shaped.Shows v (.natural offset.val))
      Wire.slotOffset := by
  intro offset v hv
  have hbyte : offset.val < 256 := by omega
  simp [Wire.slotOffset, Read.natural_of_shows hv hbyte]

/-- The record of storage records reads the parts of every storage record. -/
theorem storageRecord_fits (r : StorageRecord) :
    Wire.storageRecord.Fits r.parts [
      (·.slot = some r.slot),
      (·.offset = some r.offset),
      (·.type = some r.type),
      (·.reads.getD [] = r.reads),
      (·.writes.getD [] = r.writes)] where
  toLaidOut := Wire.storageRecord_laidOut
  fields_eq := rfl
  parts_eq := rfl
  holds_eq := rfl
  sound := by
    simp only [Record.fieldParts, Wire.storageRecord, StorageRecord.parts, List.zipWith3,
      List.forall_mem_cons]
    refine ⟨?_, ?_, ?_, ?_, ?_, fun e he => by cases he⟩
    · exact .required reads_slot rfl fun _ => rfl
    · refine ⟨rfl, fun v hv => ?_, False.elim, fun _ _ => Eq.trans⟩
      exact ⟨r.offset, reads_slotOffset hv, fun _ => rfl⟩
    · exact .required reads_text rfl fun _ => rfl
    · exact .omissible (reads_list reads_selector) rfl fun _ => rfl
    · exact .omissible (reads_list reads_selector) rfl fun _ => rfl

/-- Storage records are read from the objects that describe them. -/
theorem reads_storage : Reads StorageRecord.form Wire.storageRecord.read := by
  rintro r v ⟨members, hv, hmembers⟩
  obtain ⟨d, hread, hholds⟩ :=
    Record.read_of_describes (storageRecord_fits r) check_of_wellFormed hmembers hv
  simp only [List.forall_mem_cons] at hholds
  obtain ⟨hslot, hoffset, htype, hreads, hwrites, _⟩ := hholds
  rw [hread]
  simp [Wire.storageRecord, hslot, hoffset, htype, hreads, hwrites, require, bind, Except.bind,
    pure, Except.pure]

/-! ### Instructions and basic blocks -/

/-- Instructions are read from their pairs. -/
theorem reads_instruction : Reads Instruction.form Wire.instruction := by
  intro i v hv
  simp [Wire.instruction, reads_pair reads_offset reads_text "instruction" hv, Except.map]

/-- Basic blocks are read from their pairs. -/
theorem reads_basicBlock : Reads BasicBlock.form Wire.basicBlock := by
  intro b v hv
  simp [Wire.basicBlock, reads_pair reads_offset reads_offset "basic block" hv, Except.map]

/-! ### The data of a block -/

/-- The record of candidates reads the parts of every candidate. -/
theorem dynamicJumpRecord_fits (j : DynamicJump) :
    (Wire.dynamicJumpRecord : Record Value _ _).Fits j.parts [
      (·.path = some j.path),
      (·.target.getD none = j.target)] where
  toLaidOut := Wire.dynamicJumpRecord_laidOut
  fields_eq := rfl
  parts_eq := rfl
  holds_eq := rfl
  sound := by
    simp only [Record.fieldParts, Wire.dynamicJumpRecord, DynamicJump.parts, List.zipWith3,
      List.forall_mem_cons]
    refine ⟨?_, ?_, fun e he => by cases he⟩
    · exact .required (reads_list reads_offset) rfl fun _ => rfl
    · exact .omissible (reads_option reads_offset neverNull_offset) rfl fun _ => rfl

/-- Candidates are read from the objects that describe them. -/
theorem reads_dynamicJump : Reads (DynamicJump.form : Form Value DynamicJump)
    Wire.dynamicJumpRecord.read := by
  rintro j v ⟨members, hv, hmembers⟩
  obtain ⟨d, hread, hholds⟩ :=
    Record.read_of_describes (dynamicJumpRecord_fits j) (fun _ hextra => hextra.elim) hmembers hv
  simp only [List.forall_mem_cons] at hholds
  obtain ⟨hpath, htarget, _⟩ := hholds
  rw [hread]
  simp [Wire.dynamicJumpRecord, hpath, htarget, require, bind, Except.bind, pure, Except.pure]

/-- Two branches are read from an object that describes them. -/
theorem branchRecord_read {α : Type} {form : Form Value α} {taken : Value → Except Fault α}
    (htaken : Reads form taken) {trueTo : α} {falseTo : UInt64} {members : List (String × Value)}
    (hmembers : Describes [
      { names := ["true_to"], form := form trueTo },
      { names := ["false_to"], form := Form.offset falseTo }] (fun _ => False) members)
    {v : Value} (hv : Shaped.Shows v (.object members)) (name : String)
    (exit : α → UInt64 → Exit) :
    (Wire.branchRecord name taken exit).read v = .ok (exit trueTo falseTo) := by
  have hfits : (Wire.branchRecord name taken exit).Fits [
      { names := ["true_to"], form := form trueTo },
      { names := ["false_to"], form := Form.offset falseTo }] [
      (·.trueTo = some trueTo),
      (·.falseTo = some falseTo)] := by
    refine ⟨Wire.branchRecord_laidOut name taken exit, rfl, rfl, rfl, ?_⟩
    simp only [Record.fieldParts, Wire.branchRecord, List.zipWith3, List.forall_mem_cons]
    refine ⟨?_, ?_, fun e he => by cases he⟩
    · exact .required htaken rfl fun _ => rfl
    · exact .required reads_offset rfl fun _ => rfl
  obtain ⟨d, hread, hholds⟩ :=
    Record.read_of_describes hfits (fun _ hextra => hextra.elim) hmembers hv
  simp only [List.forall_mem_cons] at hholds
  obtain ⟨htrue, hfalse, _⟩ := hholds
  rw [hread]
  simp [Wire.branchRecord, htrue, hfalse, require, bind, Except.bind, pure, Except.pure]

/-- The data of a block is read by the reader that the block's tag announces. -/
theorem exitReader?_of_form {exit : Exit} {v : Value} (hexit : Exit.form exit v) :
    ∃ read, Wire.exitReader? exit.tag = some read ∧ read v = .ok exit := by
  obtain ⟨members, hv, hmembers⟩ := hexit
  have hextra : ∀ v : Value, False → Source.check v = .ok () := fun _ hfalse => hfalse.elim
  cases exit with
  | terminate success =>
    refine ⟨Wire.terminateRecord.read, by simp [Wire.exitReader?, Exit.tag], ?_⟩
    obtain ⟨b, hread, rfl⟩ := Wire.terminateRecord.read_single (· = success) rfl rfl
      (fun v hform => ⟨_, reads_boolean hform, rfl⟩) hextra hmembers hv
    rw [hread]
    rfl
  | jump target =>
    refine ⟨Wire.jumpRecord.read, by simp [Wire.exitReader?, Exit.tag], ?_⟩
    obtain ⟨b, hread, rfl⟩ := Wire.jumpRecord.read_single (· = target) rfl rfl
      (fun v hform => ⟨_, reads_offset hform, rfl⟩) hextra hmembers hv
    rw [hread]
    rfl
  | jumpIf trueTo falseTo =>
    refine ⟨Wire.jumpIfRecord.read, by simp [Wire.exitReader?, Exit.tag], ?_⟩
    exact branchRecord_read reads_offset hmembers hv "JumpiData" .jumpIf
  | dynamicJump targets =>
    refine ⟨Wire.dynamicJumpDataRecord.read, by simp [Wire.exitReader?, Exit.tag], ?_⟩
    obtain ⟨b, hread, rfl⟩ := Wire.dynamicJumpDataRecord.read_single (· = targets) rfl rfl
      (fun v hform => ⟨_, reads_list reads_dynamicJump hform, rfl⟩) hextra hmembers hv
    rw [hread]
    rfl
  | dynamicJumpIf trueTo falseTo =>
    refine ⟨Wire.dynamicJumpIfRecord.read, by simp [Wire.exitReader?, Exit.tag], ?_⟩
    exact branchRecord_read (reads_list reads_dynamicJump) hmembers hv "DynamicJumpiData"
      .dynamicJumpIf

/-- The data of a block stands for the same exit once it has been read untyped. At most four levels
of nesting are opened: an object, a list of candidates, a candidate and its path. -/
theorem carries_exit : Carries 4 (Exit.form : Form Node Exit) (Exit.form : Form Value Exit) := by
  have hjumps : Carries 3 (Form.list DynamicJump.form) (Form.list DynamicJump.form) := by
    refine carries_list (carries_record fun j => .cons ?_ (.cons ?_ .nil))
    · exact ⟨rfl, id, carries_list carries_offset j.path⟩
    · exact ⟨rfl, id, (carries_option carries_offset j.target).mono (Nat.zero_le 1)⟩
  have hoffset : Carries 3 Form.offset Form.offset :=
    fun n => (carries_offset n).mono (Nat.zero_le 3)
  refine carries_record fun exit => ?_
  cases exit with
  | terminate success =>
    exact .cons ⟨rfl, id, (carries_boolean success).mono (Nat.zero_le 3)⟩ .nil
  | jump target => exact .cons ⟨rfl, id, hoffset target⟩ .nil
  | jumpIf trueTo falseTo =>
    exact .cons ⟨rfl, id, hoffset trueTo⟩ (.cons ⟨rfl, id, hoffset falseTo⟩ .nil)
  | dynamicJump targets => exact .cons ⟨rfl, id, hjumps targets⟩ .nil
  | dynamicJumpIf trueTo falseTo =>
    exact .cons ⟨rfl, id, hjumps trueTo⟩ (.cons ⟨rfl, id, hoffset falseTo⟩ .nil)

/-! ### Blocks -/

/-- The record of blocks reads the parts of every block, and keeps its data untyped. -/
theorem rawBlockRecord_fits {depth : Nat} (hdepth : depth + 4 ≤ nestingLimit) (b : Block) :
    (Wire.rawBlockRecord depth).Fits b.parts [
      (·.start = some b.start),
      (·.last = some b.last),
      (·.tag = some b.exit.tag),
      fun d => ∃ v, d.data = some v ∧ Exit.form b.exit v] where
  toLaidOut := Wire.rawBlockRecord_laidOut depth
  fields_eq := rfl
  parts_eq := rfl
  holds_eq := rfl
  sound := by
    simp only [Record.fieldParts, Wire.rawBlockRecord, Block.parts, List.zipWith3,
      List.forall_mem_cons]
    refine ⟨?_, ?_, ?_, ?_, fun e he => by cases he⟩
    · exact .required reads_offset rfl fun _ => rfl
    · exact .required reads_offset rfl fun _ => rfl
    · exact .required reads_text rfl fun _ => rfl
    · refine ⟨rfl, fun node hnode => ?_, False.elim, ?_⟩
      · obtain ⟨v, hv, hform⟩ := carries_exit b.exit hnode (nestingLimit - depth) (by omega)
        exact ⟨v, hv, fun _ => ⟨v, rfl, hform⟩⟩
      · rintro d d' hget ⟨v, hv, hform⟩
        exact ⟨v, hget.trans hv, hform⟩

/-- A block is read with its data untyped, and the data is what its tag announces. -/
theorem rawBlock_of_form {depth : Nat} (hdepth : depth + 4 ≤ nestingLimit) {b : Block} {node : Node}
    (hnode : Block.form b node) :
    ∃ raw, (Wire.rawBlockRecord depth).read node = .ok raw ∧ Block.ofRaw raw = .ok b := by
  obtain ⟨members, hshows, hmembers⟩ := hnode
  obtain ⟨d, hread, hholds⟩ :=
    Record.read_of_describes (rawBlockRecord_fits hdepth b) check_of_wellFormed hmembers hshows
  simp only [List.forall_mem_cons] at hholds
  obtain ⟨hstart, hlast, htag, ⟨v, hdata, hform⟩, _⟩ := hholds
  obtain ⟨read, hreader, hexit⟩ := exitReader?_of_form hform
  refine ⟨⟨b.start, b.last, b.exit.tag, v⟩, ?_, ?_⟩
  · rw [hread]
    simp [Wire.rawBlockRecord, hstart, hlast, htag, hdata, require, bind, Except.bind, pure,
      Except.pure]
  · simp [Block.ofRaw, hreader, hexit]

/-- The blocks of a graph are read one after the other. -/
theorem rawBlocks_of_form {depth : Nat} (hdepth : depth + 4 ≤ nestingLimit) {blocks : List Block}
    {node : Node} (hnode : Form.list Block.form blocks node) :
    ∃ raws, Read.list (Wire.rawBlockRecord depth).read node = .ok raws ∧
      Block.ofRaws raws = .ok blocks := by
  obtain ⟨nodes, hshows, hblocks⟩ := hnode
  have hraws : ∃ raws, List.Forall₂
      (fun raw node => (Wire.rawBlockRecord depth).read node = .ok raw) raws nodes ∧
      Block.ofRaws raws = .ok blocks := by
    clear hshows
    induction hblocks with
    | nil => exact ⟨[], .nil, rfl⟩
    | cons hblock _ ih =>
      obtain ⟨raw, hraw, hofRaw⟩ := rawBlock_of_form hdepth hblock
      obtain ⟨raws, hraws, hofRaws⟩ := ih
      refine ⟨raw :: raws, .cons hraw hraws, ?_⟩
      simp [Block.ofRaws, hofRaw, hofRaws, Except.map]
  obtain ⟨raws, hraws, hofRaws⟩ := hraws
  refine ⟨raws, reads_list (fun _ _ hraw => hraw) ⟨nodes, hshows, hraws⟩, hofRaws⟩

/-! ### Contracts -/

/-- A graph whose blocks have untyped data becomes this graph, and no graph becomes none. -/
def RawGraph (raws : Option (List Wire.RawBlock)) (graph : Option Graph) : Prop :=
  match raws, graph with
  | none, none => True
  | some raws, some g => Block.ofRaws raws = .ok g.blocks
  | _, _ => False

/-- From what describes a graph, a graph with untyped data is read that becomes this graph. -/
theorem rawGraph_of_form {graph : Option Graph} {node : Node}
    (hnode : Form.option Graph.form graph node) :
    ∃ raws, Read.optional
      (Wire.graphRecord "WireControlFlowGraph" (Wire.rawBlockRecord 4).read).read node = .ok raws ∧
      RawGraph raws graph := by
  cases graph with
  | none =>
    have hisNull := Shaped.isNull_of_shows hnode
    exact ⟨none, by simp [Read.optional, hisNull, Shape.isNull], trivial⟩
  | some g =>
    obtain ⟨shape, hshape, hnull⟩ := neverNull_record Graph.parts WellFormed hnode
    obtain ⟨members, hshows, hmembers⟩ := hnode
    have hblocks : ∀ node, Form.list Block.form g.blocks node → ∃ raws,
        Read.list (Wire.rawBlockRecord 4).read node = .ok raws ∧
          Block.ofRaws raws = .ok g.blocks :=
      fun node hform => rawBlocks_of_form (by decide) hform
    obtain ⟨raws, hread, hofRaws⟩ :=
      (Wire.graphRecord "WireControlFlowGraph" (Wire.rawBlockRecord 4).read).read_single
        (fun raws => Block.ofRaws raws = .ok g.blocks) rfl rfl hblocks check_of_wellFormed hmembers
        hshows
    have hgraph : (Wire.graphRecord "WireControlFlowGraph" (Wire.rawBlockRecord 4).read).read node =
        .ok raws := hread
    have hisNull := Shaped.isNull_of_shows hshape
    exact ⟨some raws, by simp [Read.optional, hisNull, hnull, hgraph, Except.map], hofRaws⟩

/-- The record of contracts reads the parts of every contract, and keeps the data of its blocks
untyped. -/
theorem contractRecord_fits (c : Contract) :
    Wire.contractRecord.Fits c.parts [
      (·.functions.getD none = c.functions),
      (·.storage.getD none = c.storage),
      (·.disassembled.getD none = c.disassembled),
      (·.basicBlocks.getD none = c.basicBlocks),
      fun d => RawGraph (d.blocks.getD none) c.controlFlowGraph] where
  toLaidOut := Wire.contractRecord_laidOut
  fields_eq := rfl
  parts_eq := rfl
  holds_eq := rfl
  sound := by
    simp only [Record.fieldParts, Wire.contractRecord, Contract.parts, List.zipWith3,
      List.forall_mem_cons]
    refine ⟨?_, ?_, ?_, ?_, ?_, fun e he => by cases he⟩
    · exact .omissible (reads_option (reads_list reads_function) (neverNull_list _)) rfl
        fun _ => rfl
    · exact .omissible (reads_option (reads_list reads_storage) (neverNull_list _)) rfl
        fun _ => rfl
    · exact .omissible (reads_option (reads_list reads_instruction) (neverNull_list _)) rfl
        fun _ => rfl
    · exact .omissible (reads_option (reads_list reads_basicBlock) (neverNull_list _)) rfl
        fun _ => rfl
    · refine ⟨rfl, fun v hv => ?_, fun hnone d hopen => ?_, fun d d' hget => ?_⟩
      · obtain ⟨raws, hread, hraws⟩ := rawGraph_of_form hv
        exact ⟨raws, hread, fun _ => hraws⟩
      · change c.controlFlowGraph = none at hnone
        change d.blocks = none at hopen
        change RawGraph (d.blocks.getD none) c.controlFlowGraph
        rw [hopen, hnone]
        trivial
      · change d'.blocks = d.blocks at hget
        change RawGraph (d.blocks.getD none) _ → RawGraph (d'.blocks.getD none) _
        rw [hget]
        exact id

/-- A contract is read with the data of its blocks untyped, and the data is what the tags
announce. -/
theorem rawContract_of_form {c : Contract} {root : Node} (hroot : Contract.form c root) :
    ∃ raw, Wire.contractRecord.read root = .ok raw ∧ Contract.ofRaw raw = .ok c := by
  obtain ⟨members, hshows, hmembers⟩ := hroot
  obtain ⟨d, hread, hholds⟩ :=
    Record.read_of_describes (contractRecord_fits c) check_of_wellFormed hmembers hshows
  simp only [List.forall_mem_cons] at hholds
  obtain ⟨hfunctions, hstorage, hdisassembled, hbasicBlocks, hgraph, _⟩ := hholds
  refine ⟨_, hread, ?_⟩
  obtain ⟨functions, storage, disassembled, basicBlocks, graph⟩ := c
  simp only at hfunctions hstorage hdisassembled hbasicBlocks hgraph
  simp only [Contract.ofRaw, hfunctions, hstorage, hdisassembled, hbasicBlocks]
  cases hraws : d.blocks.getD none with
  | none =>
    cases graph with
    | none => rfl
    | some g => simp [RawGraph, hraws] at hgraph
  | some raws =>
    cases graph with
    | none => simp [RawGraph, hraws] at hgraph
    | some g =>
      rw [hraws] at hgraph
      simp only [RawGraph] at hgraph
      simp [hgraph, Except.map]

/-- A whole text is decoded through the tree that it spells. -/
theorem decodeWhole_of_written {α β : Type} {read : Node → Except Fault α}
    {convert : α → Except DecodeFault β} {root : Node} {text : Bytes}
    (htext : DocumentWritten root text) {a : α} {b : β} (hread : read root = .ok a)
    (hconvert : convert a = .ok b) : decodeWhole read convert text = .ok b := by
  simp [decodeWhole, readWhole, Document.ofBytes_of_written htext, hread, hconvert]

/-- A contract is decoded from every text that writes it. -/
theorem Contract.decode_eq_ok_of_spelled {c : Contract} {text : Bytes} (htext : c.Spelled text) :
    Contract.decode text = .ok c := by
  obtain ⟨root, hwritten, hform⟩ := htext
  obtain ⟨raw, hread, hofRaw⟩ := rawContract_of_form hform
  exact decodeWhole_of_written hwritten hread hofRaw

/-- A contract with a single function. -/
def oneFunction : Contract where
  functions := some [⟨⟨[0xa9, 0x05, 0x9c, 0xbb], rfl⟩, 7, none, none⟩]

/-- A text of this contract that the encoder would not write: it has blanks, an unknown member,
`null` for a missing section, an escaped letter in a key, the other name of the offset, a mark and
capital letters in the selector, and the members in another order. -/
def oneFunctionText : Bytes :=
  Bytes.ofText "\x7b \"x\" : [ ] , \"storage\":null,\"\\u0066unctions\":[\x7b" ++
    Bytes.ofText "\"bytecodeOffset\":7,\"selector\":\"0XA9059CBb\"\x7d]\x7d"

/-- This text writes the contract with one function. -/
theorem spelled_oneFunctionText : oneFunction.Spelled oneFunctionText := by
  have hnone : Blank [] := by decide
  have hspace : Blank [32] := by decide
  obtain ⟨x, hx, hxText⟩ := exists_pieces "x"
  obtain ⟨storage, hstorage, hstorageText⟩ := exists_pieces "storage"
  obtain ⟨unctions, hunctions, hunctionsText⟩ := exists_pieces "unctions"
  obtain ⟨offset, hoffset, hoffsetText⟩ := exists_pieces "bytecodeOffset"
  obtain ⟨selector, hselector, hselectorText⟩ := exists_pieces "selector"
  obtain ⟨seven, hsevenText, hseven⟩ := prints_offset 7
  obtain ⟨name, hnameText, hname⟩ := prints_text "0XA9059CBb"
  have hescape : Piece.Written (.unit 'f'.toNat) [92, 117, 48, 48, 54, 54] :=
    .unit (show Hex.IsDigit 48 0 by decide) (show Hex.IsDigit 48 0 by decide)
      (show Hex.IsDigit 54 6 by decide) (show Hex.IsDigit 54 6 by decide)
  have hfunctions : Spelled "functions".toList ([.unit 'f'.toNat] ++ unctions) :=
    .cons (.unit (by decide)) hunctions
  -- The text, from the inside out.
  have hfunctionText := Written.object (.member hnone hoffsetText hnone hnone hsevenText hnone
    (.lastMember hnone hselectorText hnone hnone hnameText hnone))
  have htext := Written.object (.member hspace hxText hspace hspace (.emptyArray hspace) hspace
    (.member hspace hstorageText hnone hnone .null hnone
      (.lastMember hnone (.cons hescape hunctionsText) hnone hnone
        (.array (.lastItem hnone hfunctionText hnone)) hnone)))
  refine ⟨_, ⟨[], _, [], hnone, htext, hnone, by decide +kernel⟩, ?_⟩
  -- The tree writes the contract.
  have hnamed : (⟨[0xa9, 0x05, 0x9c, 0xbb], rfl⟩ : Selector).Named false "0XA9059CBb" :=
    ⟨"0X", by decide, 0, [10, 9, 0, 5, 9, 12, 11, 11], [65, 57, 48, 53, 57, 67, 66, 98], by decide,
      by decide, .inl rfl, by decide, by decide⟩
  have hfunction : Function.form ⟨⟨[0xa9, 0x05, 0x9c, 0xbb], rfl⟩, 7, none, none⟩
      (.object [(⟨offset, .closed⟩, seven), (⟨selector, .closed⟩, name)] .closed) := by
    refine ⟨[("bytecodeOffset", seven), ("selector", name)],
      .object (.cons ⟨rfl, hoffset, rfl⟩ (.cons ⟨rfl, hselector, rfl⟩ .nil)), ?_, ?_, ?_⟩
    · simp only [List.forall_mem_cons]
      exact ⟨.inl ⟨_, .tail _ (.head _), by simp, hseven⟩,
        .inl ⟨_, .head _, by simp, _, hnamed, hname⟩, fun m hm => by cases hm⟩
    · simp [Function.parts]
    · simp [Function.parts]
  refine ⟨[("x", .array [] .closed), ("storage", .null), ("functions", _)],
    .object (.cons ⟨rfl, hx, rfl⟩ (.cons ⟨rfl, hstorage, rfl⟩ (.cons ⟨rfl, hfunctions, rfl⟩ .nil))),
    ?_, ?_, ?_⟩
  · simp only [List.forall_mem_cons]
    exact ⟨.inr ⟨by simp [Contract.parts], _, .emptyArray hnone⟩,
      .inl ⟨_, .tail _ (.head _), by simp, .null⟩,
      .inl ⟨_, .head _, by simp, _, .array _, .cons hfunction .nil⟩, fun m hm => by cases hm⟩
  · simp [Contract.parts]
  · simp [Contract.parts, oneFunction]

/-- This text is decoded to the contract with one function. -/
theorem Contract.decode_oneFunctionText :
    oneFunction.Spelled oneFunctionText ∧ Contract.decode oneFunctionText = .ok oneFunction :=
  ⟨spelled_oneFunctionText, Contract.decode_eq_ok_of_spelled spelled_oneFunctionText⟩

end EngineHost
