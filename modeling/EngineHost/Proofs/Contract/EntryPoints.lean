import EngineHost.Contract.Decode
import EngineHost.Proofs.Json.Inversion

/-!
# The ways to read a text agree

A contract or a block can be decoded, which looks at the data of blocks after the whole text has
been read, or be read as part of a larger value, which looks at it as soon as it can. The two meet
the faults of a text in different orders, but they accept the same texts and return the same data.
A graph goes furthest: it looks at the data of each block before it reads the next one.
-/

namespace EngineHost

open Json

variable {α β : Type}

/-- A whole text is read just in case its root is and nothing follows it. -/
theorem readWhole_eq_ok_iff {read : Node → Except Fault α} {payload : Bytes} {a : α} :
    readWhole read payload = .ok a ↔
      read (Document.ofBytes payload).root = .ok a ∧
        (Document.ofBytes payload).trailing = false := by
  unfold readWhole
  dsimp only
  cases read (Document.ofBytes payload).root with
  | error f => simp
  | ok a' => cases (Document.ofBytes payload).trailing <;> simp

/-- A whole text is decoded just in case it is read and what was read can be converted. -/
theorem decodeWhole_eq_ok_iff {read : Node → Except Fault α} {convert : α → Except DecodeFault β}
    {payload : Bytes} {b : β} :
    decodeWhole read convert payload = .ok b ↔
      ∃ a, readWhole read payload = .ok a ∧ convert a = .ok b := by
  unfold decodeWhole
  cases readWhole read payload <;> simp

/-- A fault of the reader is a fault of the text. -/
theorem decodeWhole_of_fault {read : Node → Except Fault α} {convert : α → Except DecodeFault β}
    {payload : Bytes} {f : Fault} (hread : read (Document.ofBytes payload).root = .error f) :
    decodeWhole read convert payload = .error (.schema (.text f)) := by
  simp [decodeWhole, readWhole, hread]

/-- A fault of the conversion is met once the text has been read. -/
theorem exists_of_decodeWhole_unknownTag {read : Node → Except Fault α}
    {convert : α → Except DecodeFault β} {payload : Bytes} {tag : String} {start : Option UInt64}
    (hfault : decodeWhole read convert payload = .error (.unknownTag tag start)) :
    ∃ a, readWhole read payload = .ok a ∧ convert a = .error (.unknownTag tag start) := by
  unfold decodeWhole at hfault
  cases hread : readWhole read payload with
  | error f => simp [hread] at hfault
  | ok a => exact ⟨a, rfl, by simpa [hread] using hfault⟩

namespace Wire

/-- A converting reader succeeds just in case both of its stages do. -/
theorem converted_eq_ok_iff {read : Node → Except Fault α} {convert : α → Except DecodeFault β}
    {node : Node} {b : β} :
    converted read convert node = .ok b ↔ ∃ a, read node = .ok a ∧ convert a = .ok b := by
  unfold converted
  cases read node with
  | error f => simp
  | ok a => cases hconvert : convert a <;> simp [hconvert]

/-- A reader that converts on the spot accepts what is accepted when the conversion comes last. -/
theorem readWhole_converted_eq_ok_iff {read : Node → Except Fault α}
    {convert : α → Except DecodeFault β} {payload : Bytes} {b : β} :
    readWhole (converted read convert) payload = .ok b ↔
      decodeWhole read convert payload = .ok b := by
  rw [readWhole_eq_ok_iff, decodeWhole_eq_ok_iff, converted_eq_ok_iff]
  constructor
  · rintro ⟨⟨a, hread, hconvert⟩, htrailing⟩
    exact ⟨a, readWhole_eq_ok_iff.mpr ⟨hread, htrailing⟩, hconvert⟩
  · rintro ⟨a, hwhole, hconvert⟩
    obtain ⟨hread, htrailing⟩ := readWhole_eq_ok_iff.mp hwhole
    exact ⟨⟨a, hread, hconvert⟩, htrailing⟩

/-- A reader that converts on the spot reports an unknown tag in the words of the decoder. -/
theorem readWhole_converted_unknownTag {read : Node → Except Fault α}
    {convert : α → Except DecodeFault β} {payload : Bytes} {tag : String} {start : Option UInt64}
    (hfault : decodeWhole read convert payload = .error (.unknownTag tag start)) :
    ∃ f, readWhole (converted read convert) payload = .error f ∧
      f.message = (DecodeFault.unknownTag tag start).message := by
  obtain ⟨a, hwhole, hconvert⟩ := exists_of_decodeWhole_unknownTag hfault
  obtain ⟨hread, -⟩ := readWhole_eq_ok_iff.mp hwhole
  refine ⟨.refused (DecodeFault.unknownTag tag start).message, ?_, rfl⟩
  simp [readWhole, converted, hread, hconvert]

end Wire

/-- Blocks are converted one by one. -/
theorem Block.ofRaws_eq_ok_iff {raws : List Wire.RawBlock} {blocks : List Block} :
    Block.ofRaws raws = .ok blocks ↔
      List.Forall₂ (fun b raw => Block.ofRaw raw = .ok b) blocks raws := by
  induction raws generalizing blocks with
  | nil => cases blocks <;> simp [Block.ofRaws]
  | cons raw rest ih =>
    rw [Block.ofRaws]
    cases hraw : Block.ofRaw raw with
    | error f => cases blocks <;> simp [hraw]
    | ok b =>
      cases blocks with
      | nil => cases Block.ofRaws rest <;> simp [Except.map]
      | cons b' blocks =>
        rw [List.forall₂_cons, ← ih, hraw]
        cases Block.ofRaws rest <;> simp [Except.map]

namespace Wire

/-- A list of blocks whose data is looked at block by block is the list that is obtained when the
data is looked at after all blocks have been read. -/
theorem list_block_eq_ok_iff {depth : Nat} {node : Node} {blocks : List Block} :
    Read.list (block depth) node = .ok blocks ↔
      ∃ raws, Read.list (rawBlockRecord depth).read node = .ok raws ∧
        Block.ofRaws raws = .ok blocks := by
  simp only [Read.list_eq_ok_iff, Block.ofRaws_eq_ok_iff]
  constructor
  · rintro ⟨nodes, rfl, hnodes⟩
    have hraws : ∃ raws, List.Forall₂ (fun raw n => (rawBlockRecord depth).read n = .ok raw) raws
        nodes ∧ List.Forall₂ (fun b raw => Block.ofRaw raw = .ok b) blocks raws := by
      induction hnodes with
      | nil => exact ⟨[], .nil, .nil⟩
      | cons hblock _ ih =>
        obtain ⟨raw, hread, hofRaw⟩ := converted_eq_ok_iff.mp hblock
        obtain ⟨raws, hreads, hofRaws⟩ := ih
        exact ⟨raw :: raws, .cons hread hreads, .cons hofRaw hofRaws⟩
    obtain ⟨raws, hreads, hofRaws⟩ := hraws
    exact ⟨raws, ⟨nodes, rfl, hreads⟩, hofRaws⟩
  · rintro ⟨raws, ⟨nodes, rfl, hreads⟩, hofRaws⟩
    refine ⟨nodes, rfl, ?_⟩
    induction hreads generalizing blocks with
    | nil =>
      cases hofRaws
      exact .nil
    | cons hread _ ih =>
      cases hofRaws with
      | cons hofRaw hofRaws =>
        exact .cons (converted_eq_ok_iff.mpr ⟨_, hread, hofRaw⟩) (ih hofRaws)

/-- The blocks of a graph stand in its only field. -/
theorem graphRecord_eq_ok_iff {name : String} {block : Node → Except Fault α} {node : Node}
    {blocks : List α} :
    (graphRecord name block).read node = .ok blocks ↔
      ∃ v, Record.Sole "blocks" node v ∧ Read.list block v = .ok blocks := by
  have hrequired : ∀ as, (graphRecord name block).build none ≠ .ok as := by
    intro as hbuild
    cases hbuild
  have hfields : (graphRecord name block).fields =
      [Record.soleField "blocks" (Read.list block)] := rfl
  rw [Record.read_eq_ok_iff_sole hfields rfl hrequired]
  constructor
  · rintro ⟨v, x, hsole, hread, hbuild⟩
    cases hbuild
    exact ⟨v, hsole, hread⟩
  · rintro ⟨v, hsole, hread⟩
    exact ⟨v, blocks, hsole, hread, rfl⟩

/-- A graph is read block by block as it is read as a whole. -/
theorem graph_eq_ok_iff {node : Node} {g : Graph} :
    graph node = .ok g ↔
      ∃ raws, (graphRecord "WireControlFlowGraph" (rawBlockRecord 3).read).read node = .ok raws ∧
        Block.ofRaws raws = .ok g.blocks := by
  have hmap : graph node = .ok g ↔
      (graphRecord "ControlFlowGraph" (block 3)).read node = .ok g.blocks := by
    unfold graph
    cases (graphRecord "ControlFlowGraph" (block 3)).read node with
    | error f => simp [Except.map]
    | ok blocks =>
      constructor
      · intro hg
        cases hg
        rfl
      · intro hblocks
        cases hblocks
        rfl
  simp only [hmap, graphRecord_eq_ok_iff, list_block_eq_ok_iff]
  constructor
  · rintro ⟨v, hsole, raws, hread, hofRaws⟩
    exact ⟨raws, ⟨v, hsole, hread⟩, hofRaws⟩
  · rintro ⟨raws, ⟨v, hsole, hread⟩, hofRaws⟩
    exact ⟨v, hsole, raws, hread, hofRaws⟩

end Wire

/-- All ways to read a text accept the same texts with the same data: contracts and blocks whether
their data is looked at last or on the spot, and graphs whether it is looked at after the whole
text or block by block. Where the decoder meets an unknown tag, so does the reader, in the same
words. -/
theorem entryPoints_agree (p : Bytes) :
    (∀ c, readWhole Wire.contract p = .ok c ↔ Contract.decode p = .ok c) ∧
    (∀ b, readWhole (Wire.block 1) p = .ok b ↔ Block.decode p = .ok b) ∧
    (∀ g, readWhole Wire.graph p = .ok g ↔
      ∃ raws, readWhole
          (Wire.graphRecord "WireControlFlowGraph" (Wire.rawBlockRecord 3).read).read p = .ok raws ∧
        Block.ofRaws raws = .ok g.blocks) ∧
    (∀ tag start, Contract.decode p = .error (.unknownTag tag start) →
      ∃ f, readWhole Wire.contract p = .error f ∧
        f.message = (DecodeFault.unknownTag tag start).message) ∧
    (∀ tag start, Block.decode p = .error (.unknownTag tag start) →
      ∃ f, readWhole (Wire.block 1) p = .error f ∧
        f.message = (DecodeFault.unknownTag tag start).message) := by
  refine ⟨fun c => ?_, fun b => ?_, fun g => ?_, fun tag start hfault => ?_,
    fun tag start hfault => ?_⟩
  · exact Wire.readWhole_converted_eq_ok_iff
  · exact Wire.readWhole_converted_eq_ok_iff
  · simp only [readWhole_eq_ok_iff, Wire.graph_eq_ok_iff]
    constructor
    · rintro ⟨⟨raws, hread, hofRaws⟩, htrailing⟩
      exact ⟨raws, ⟨hread, htrailing⟩, hofRaws⟩
    · rintro ⟨raws, ⟨hread, htrailing⟩, hofRaws⟩
      exact ⟨⟨raws, hread, hofRaws⟩, htrailing⟩
  · exact Wire.readWhole_converted_unknownTag hfault
  · exact Wire.readWhole_converted_unknownTag hfault

/-- A block with a tag that no block has. -/
def unknownTagBlock : Bytes :=
  Bytes.ofText "\x7b\"type\":\"Nope\",\"end\":1,\"start\":0,\"x\":[\x7b\x7d]\x7d"

/-- A contract with that block. -/
def unknownTagContract : Bytes :=
  Bytes.ofText "\x7b\"controlFlowGraph\":\x7b\"blocks\":[" ++ unknownTagBlock ++
    Bytes.ofText "]\x7d\x7d"

set_option maxRecDepth 4000 in
/-- An unknown tag is reported alike by all entry points, with the start of its block. -/
theorem entryPoints_agree_unknownTag :
    Contract.decode unknownTagContract = .error (.unknownTag "Nope" (some 0)) ∧
    Block.decode unknownTagBlock = .error (.unknownTag "Nope" (some 0)) ∧
    (∃ f, readWhole Wire.contract unknownTagContract = .error f ∧
      f.message = "UNKNOWN_VARIANT: unknown block type 'Nope' at block 0") ∧
    ∃ f, readWhole (Wire.block 1) unknownTagBlock = .error f ∧
      f.message = "UNKNOWN_VARIANT: unknown block type 'Nope' at block 0" := by
  have hcontract : Contract.decode unknownTagContract = .error (.unknownTag "Nope" (some 0)) := rfl
  have hblock : Block.decode unknownTagBlock = .error (.unknownTag "Nope" (some 0)) := rfl
  obtain ⟨-, -, -, hasContract, -⟩ := entryPoints_agree unknownTagContract
  obtain ⟨-, -, -, -, hasBlock⟩ := entryPoints_agree unknownTagBlock
  have hmessage : (DecodeFault.unknownTag "Nope" (some 0)).message =
      "UNKNOWN_VARIANT: unknown block type 'Nope' at block 0" := by decide +kernel
  rw [← hmessage]
  exact ⟨hcontract, hblock, hasContract _ _ hcontract, hasBlock _ _ hblock⟩

end EngineHost
