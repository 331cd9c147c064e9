import EngineHost.Proofs.Contract.EntryPoints
import EngineHost.Proofs.Contract.OffsetPlaces
import EngineHost.Proofs.Contract.Reading
import EngineHost.Proofs.Json.NumberTokens
import EngineHost.Proofs.Json.Printing
import EngineHost.Proofs.Json.Spelling
import EngineHost.Proofs.Json.UntypedPlaces

/-!
# Numbers as offsets

Which number tokens stand for offsets. Some offsets are read from the text itself. Those in the exit
of a block are first read as untyped numbers, which may also be negative or doubles, and only then
as offsets. Both ways accept the plain decimals of 64 bits and no other token.
-/

namespace EngineHost

open Json

/-! ### Conversions -/

/-- A block with untyped data is converted just in case its tag has a reader and this reads the
data. -/
theorem Block.ofRaw_eq_ok_iff {raw : Wire.RawBlock} {b : Block} :
    Block.ofRaw raw = .ok b ↔ ∃ read exit, Wire.exitReader? raw.tag = some read ∧
      read raw.data = .ok exit ∧ b = ⟨raw.start, raw.last, exit⟩ := by
  unfold Block.ofRaw
  cases Wire.exitReader? raw.tag with
  | none => simp
  | some read => cases hread : read raw.data <;> simp [hread, eq_comm]

/-- A contract with untyped data is converted just in case its graph is; the rest stays as it is. -/
theorem Contract.ofRaw_eq_ok_iff {raw : Wire.RawContract} {c : Contract} :
    Contract.ofRaw raw = .ok c ↔ ∃ graph, RawGraph raw.blocks graph ∧
      c = ⟨raw.functions, raw.storage, raw.disassembled, raw.basicBlocks, graph⟩ := by
  unfold Contract.ofRaw
  cases raw.blocks with
  | none =>
    constructor
    · rintro ⟨⟩
      exact ⟨none, trivial, rfl⟩
    · rintro ⟨_ | graph, hgraph, rfl⟩
      · rfl
      · exact absurd hgraph id
  | some raws =>
    simp only [map_eq_ok_iff]
    constructor
    · rintro ⟨blocks, hblocks, rfl⟩
      exact ⟨some ⟨blocks⟩, hblocks, rfl⟩
    · rintro ⟨_ | graph, hgraph, rfl⟩
      · exact absurd hgraph id
      · exact ⟨graph.blocks, hgraph, rfl⟩

/-- In the data of a block, what stands for an offset of its exit is read as an offset, and decides
alone. -/
theorem Block.ofRaw_holes (place : ExitPlace) {raw : Wire.RawBlock} {b : Block}
    (hraw : Block.ofRaw raw = .ok b) {m : UInt64} (hplace : place.get? b.exit = some m)
    {os : List (Opening Value)} {C : Value → Value} (hC : Holes os C)
    (htakes : List.Forall₂ Opening.Takes os place.path) {y₀ y : Value} (hdata : raw.data = C y₀)
    (hy₀ : Source.isNull y₀ = .ok false) (hy : Source.isNull y = .ok false) :
    (∀ n, Read.offset y = .ok n → Block.ofRaw { raw with data := C y } =
      .ok (BlockPlace.modify (fun _ => n) (.exit place) b)) ∧
    ∀ f, Read.offset y = .error f → Block.ofRaw { raw with data := C y } =
      .error (.schema (.data raw.start raw.tag f)) := by
  obtain ⟨read, exit, hreader, hread, rfl⟩ := Block.ofRaw_eq_ok_iff.mp hraw
  have htag := Wire.tag_of_exitReader? hreader hread
  have hreaches := Wire.reaches_exit place hplace (htag.symm ▸ hreader)
  rw [hdata] at hread
  obtain ⟨_, -, hchange⟩ := hreaches.updates os C htakes hC y₀ exit hy₀ hread
  have hfault := (hreaches.focus.fault_of_holes htakes hC hC hy₀ hy hread).2
  refine ⟨fun n hn => ?_, fun f hf => ?_⟩
  · exact Block.ofRaw_eq_ok_iff.mpr ⟨read, _, hreader, hchange y (fun _ => n) hy hn, rfl⟩
  · simp only [Block.ofRaw, hreader, hfault f hf]

/-- Where blocks are converted, another block in the place of one of them decides alone. -/
theorem Block.ofRaws_modify {raws : List Wire.RawBlock} {bs : List Block} {i : Nat} {b : Block}
    (hraws : Block.ofRaws raws = .ok bs) (hb : bs[i]? = some b) :
    ∃ raw, raws[i]? = some raw ∧ Block.ofRaw raw = .ok b ∧ ∀ raw',
      (∀ b', Block.ofRaw raw' = .ok b' →
        Block.ofRaws (raws.modify i fun _ => raw') = .ok (bs.modify i fun _ => b')) ∧
      ∀ f, Block.ofRaw raw' = .error f →
        Block.ofRaws (raws.modify i fun _ => raw') = .error f := by
  rw [Block.ofRaws_eq_ok_iff] at hraws
  induction hraws generalizing i with
  | nil => simp at hb
  | @cons b₀ raw₀ bs raws hraw hrest ih =>
    cases i with
    | zero =>
      obtain rfl : b₀ = b := by simpa using hb
      refine ⟨raw₀, rfl, hraw, fun raw' => ⟨fun b' hb' => ?_, fun f hf => ?_⟩⟩
      · exact Block.ofRaws_eq_ok_iff.mpr (.cons hb' hrest)
      · simp [Block.ofRaws, hf]
    | succ i =>
      obtain ⟨raw, hi, hofRaw, hmodify⟩ := ih (by simpa using hb)
      refine ⟨raw, hi, hofRaw, fun raw' => ⟨fun b' hb' => ?_, fun f hf => ?_⟩⟩
      · have htail := Block.ofRaws_eq_ok_iff.mp ((hmodify raw').1 b' hb')
        exact Block.ofRaws_eq_ok_iff.mpr (.cons hraw htail)
      · simp only [List.modify_succ_cons, Block.ofRaws, hraw, (hmodify raw').2 f hf, Except.map]

/-! ### Readers with an offset at a place -/

section Places

variable {α β : Type}

/-- A numeral stands at the end of a path, and the tree is read and converted. -/
structure Stands (read : Node → Except Fault α) (convert : α → Except DecodeFault β)
    (path : List Step) (get? : β → Option UInt64) (surrounds : List Surround) (numeral : Numeral)
    (a : α) (b : β) : Prop where
  along : Along (surrounds.map Surround.frame) path
  last : ∀ s ∈ surrounds, s.Last
  read : read (plug surrounds (.numeral numeral)) = .ok a
  convert : convert a = .ok b
  /-- The place belongs to what the tree is converted to. -/
  get? : ∃ n, get? b = some n

/-- A numeral at the end of the path is accepted just in case it is an offset. -/
structure TakesOffset (read : Node → Except Fault α) (convert : α → Except DecodeFault β)
    (path : List Step) (get? : β → Option UInt64) (modify : (UInt64 → UInt64) → β → β) : Prop where
  accepts : ∀ {surrounds : List Surround} {numeral : Numeral} {a : α} {b : β},
    Stands read convert path get? surrounds numeral a b → ∀ (x : Numeral) (n : UInt64),
      Read.offset (Node.numeral x) = .ok n → ∃ a', read (plug surrounds (.numeral x)) = .ok a' ∧
        convert a' = .ok (modify (fun _ => n) b)
  refuses : ∀ {surrounds : List Surround} {numeral : Numeral} {a : α} {b : β},
    Stands read convert path get? surrounds numeral a b → ∀ (x : Numeral) (f : Fault),
      Read.offset (Node.numeral x) = .error f →
        (∃ g, read (plug surrounds (.numeral x)) = .error g) ∨
          ∃ a' g, read (plug surrounds (.numeral x)) = .ok a' ∧ convert a' = .error (.schema g)
  /-- A tree that is broken at the place is not read. -/
  breaks : ∀ {stack : List Frame} {root root' v : Node} {a : α}, Along stack path →
    At stack root v → v.isNull = .ok false → read root = .ok a →
      At stack root' (.broken .wrongNumeral) → ∃ f, read root' = .error f

variable {read : Node → Except Fault α} {convert : α → Except DecodeFault β} {path : List Step}
  {get? : β → Option UInt64} {modify : (UInt64 → UInt64) → β → β}

/-- Offsets that are read from the text. -/
theorem TakesOffset.of_reaches {amend : (UInt64 → UInt64) → α → α}
    (hreaches : Reaches read path Read.offset amend)
    (hconvert : ∀ f a b, convert a = .ok b → convert (amend f a) = .ok (modify f b)) :
    TakesOffset read convert path get? modify where
  accepts := by
    intro surrounds numeral a b hstands x n hn
    obtain ⟨m, -, hchange⟩ := hreaches.updates _ _ hstands.along (holes_plug surrounds)
      (.numeral numeral) a rfl hstands.read
    exact ⟨_, hchange (.numeral x) (fun _ => n) rfl hn, hconvert _ _ _ hstands.convert⟩
  refuses := by
    intro surrounds numeral a b hstands x f hf
    have hfault := (hreaches.focus.fault_of_at hstands.along (at_plug surrounds (.numeral numeral))
      (at_plug surrounds (.numeral x)) rfl rfl hstands.read).2 f hf
    exact .inl ⟨f, hfault⟩
  breaks := by
    intro stack root root' v a halong hat hv hread hat'
    exact ⟨_, (hreaches.focus.fault_of_at halong hat hat' hv rfl hread).2 _ rfl⟩

end Places

/-- A block whose data has a numeral in it: with another numeral the data has another number there,
and is the same elsewhere. -/
theorem Wire.exists_data_holes {depth : Nat} {path : List Step} {surrounds : List Surround}
    (halong : Along (surrounds.map Surround.frame) (path ++ [.field ["data"] 3]))
    (hlast : ∀ s ∈ surrounds, s.Last) {numeral : Numeral} {raw : RawBlock}
    (hread : (rawBlockRecord depth).read (plug surrounds (.numeral numeral)) = .ok raw) :
    ∃ (os : List (Opening Value)) (C : Value → Value), Holes os C ∧
      List.Forall₂ Opening.Takes os path ∧ (∃ y, raw.data = C (.number y)) ∧
      (∀ x y, x.number = .ok y → (rawBlockRecord depth).read (plug surrounds (.numeral x)) =
        .ok { raw with data := C (.number y) }) ∧
      ∀ x f, x.number = .error f →
        (rawBlockRecord depth).read (plug surrounds (.numeral x)) = .error f := by
  obtain ⟨inner, outer, rfl, hinner, houter⟩ := halong.exists_append_surrounds
  have hdata := Reaches.field (stores_data depth)
  have hnull : ∀ x : Numeral, (plug inner (.numeral x)).isNull = .ok false :=
    fun x => (holes_plug inner).isNull rfl
  rw [plug_append] at hread
  obtain ⟨y₀, hy₀, hchange⟩ :=
    hdata.updates _ _ houter (holes_plug outer) _ raw (hnull numeral) hread
  -- The data that was read is the one found at its place.
  have hself : { raw with data := y₀ } = raw := by
    have hagain := hchange _ (fun _ => y₀) (hnull numeral) hy₀
    exact Except.ok.inj (hagain.symm.trans hread)
  obtain ⟨os, C, hC, htakes, hvalue⟩ := exists_holes_of_value
    (fun s hs => hlast s (List.mem_append_left outer hs)) hinner hy₀
  have hplug : ∀ x : Numeral, (plug inner (.numeral x)).value (nestingLimit - depth) =
      (x.number.map Value.number).map C := fun x => hvalue (.numeral x)
  refine ⟨os, C, hC, htakes, ?_, fun x y hx => ?_, fun x f hx => ?_⟩
  · rw [hplug] at hy₀
    obtain ⟨_, hnumber, rfl⟩ := map_eq_ok_iff.mp hy₀
    obtain ⟨y, -, rfl⟩ := map_eq_ok_iff.mp hnumber
    exact ⟨y, (congrArg RawBlock.data hself).symm⟩
  · rw [plug_append]
    refine hchange _ (fun _ => C (.number y)) (hnull x) ?_
    rw [hplug, hx]
    rfl
  · have hfault : (plug inner (.numeral x)).value (nestingLimit - depth) = .error f := by
      rw [hplug, hx]
      rfl
    rw [plug_append]
    exact (hdata.focus.fault_of_at houter (at_plug outer _) (at_plug outer _) (hnull numeral)
      (hnull x) hread).2 f hfault

/-- Offsets that are read from untyped data. -/
theorem takesOffset_exit (depth : Nat) (place : ExitPlace) :
    TakesOffset (Wire.rawBlockRecord depth).read Block.ofRaw (BlockPlace.path (.exit place))
      (BlockPlace.get? (.exit place)) fun f => BlockPlace.modify f (.exit place) where
  accepts := by
    intro surrounds numeral raw b hstands x n hn
    obtain ⟨m, hm⟩ := hstands.get?
    obtain ⟨os, C, hC, htakes, ⟨y₀, hy₀⟩, hchange, -⟩ :=
      Wire.exists_data_holes hstands.along hstands.last hstands.read
    rw [Read.offset_numeral] at hn
    cases hx : x.number with
    | error f => simp [hx, Except.bind] at hn
    | ok y =>
      have hy : Read.offset (Value.number y) = .ok n := by simpa [hx, Except.bind] using hn
      exact ⟨_, hchange x y hx,
        (Block.ofRaw_holes place hstands.convert hm hC htakes hy₀ rfl rfl).1 n hy⟩
  refuses := by
    intro surrounds numeral raw b hstands x f hf
    obtain ⟨m, hm⟩ := hstands.get?
    obtain ⟨os, C, hC, htakes, ⟨y₀, hy₀⟩, hchange, hfault⟩ :=
      Wire.exists_data_holes hstands.along hstands.last hstands.read
    rw [Read.offset_numeral] at hf
    cases hx : x.number with
    | error g => exact .inl ⟨g, hfault x g hx⟩
    | ok y =>
      have hy : Read.offset (Value.number y) = .error f := by simpa [hx, Except.bind] using hf
      exact .inr ⟨_, _, hchange x y hx,
        (Block.ofRaw_holes place hstands.convert hm hC htakes hy₀ rfl rfl).2 f hy⟩
  breaks := by
    intro stack root root' v raw halong hat hv hread hat'
    obtain ⟨inside, outside, rfl, -, houtside⟩ := halong.exists_append
    obtain ⟨w, hw, hroot⟩ := hat.exists_append
    obtain ⟨w', hw', hroot'⟩ := hat'.exists_append
    have hfocus := Focus.field (Wire.stores_data depth).toHasField
    obtain ⟨⟨y, hy⟩, hfault⟩ :=
      hfocus.fault_of_at houtside hroot hroot' (hw.isNull hv) (hw'.isNull rfl) hread
    exact ⟨_, hfault _ ((hw.value_fault hw' hy).2 _ rfl)⟩

/-- At every place of a block, a numeral is accepted just in case it is an offset. -/
theorem takesOffset_block (depth : Nat) (place : BlockPlace) :
    TakesOffset (Wire.rawBlockRecord depth).read Block.ofRaw place.path place.get?
      fun f => place.modify f := by
  cases place with
  | start =>
    refine .of_reaches (.field (Wire.stores_start depth)) fun f raw b hraw => ?_
    obtain ⟨read, exit, hreader, hread, rfl⟩ := Block.ofRaw_eq_ok_iff.mp hraw
    exact Block.ofRaw_eq_ok_iff.mpr ⟨read, exit, hreader, hread, rfl⟩
  | last =>
    refine .of_reaches (.field (Wire.stores_last depth)) fun f raw b hraw => ?_
    obtain ⟨read, exit, hreader, hread, rfl⟩ := Block.ofRaw_eq_ok_iff.mp hraw
    exact Block.ofRaw_eq_ok_iff.mpr ⟨read, exit, hreader, hread, rfl⟩
  | exit place => exact takesOffset_exit depth place

/-- To change an item is to replace it by what it is changed to. -/
theorem modify_of_getElem? {α : Type} {as : List α} {index : Nat} {a : α}
    (ha : as[index]? = some a) (g : α → α) :
    (as.modify index fun _ => g a) = as.modify index g := by
  refine List.ext_getElem? fun i => ?_
  rw [List.getElem?_modify, List.getElem?_modify]
  by_cases hi : index = i
  · subst hi
    simp [ha]
  · simp [hi]

/-- In a contract, a numeral that stands in a block is read with the block, and the block is
converted with the others. -/
theorem Stands.exists_block {path : List Step} {get? : Block → Option UInt64} {index : Nat}
    {surrounds : List Surround} {numeral : Numeral} {a : Wire.RawContract} {c : Contract}
    (hstands : Stands Wire.contractRecord.read Contract.ofRaw
      (path ++ RecordPlace.path (.block index))
      (fun c => itemOffset? get? index (c.controlFlowGraph.map Graph.blocks)) surrounds numeral
      a c) :
    ∃ inner outer raw b, surrounds = inner ++ outer ∧
      Stands (Wire.rawBlockRecord 4).read Block.ofRaw path get? inner numeral raw b ∧
      (∀ w raw', w.isNull = .ok false → (Wire.rawBlockRecord 4).read w = .ok raw' →
        ∃ a', Wire.contractRecord.read (plug outer w) = .ok a' ∧
          (∀ g, Block.ofRaw raw' = .ok (g b) → Contract.ofRaw a' = .ok { c with
            controlFlowGraph := c.controlFlowGraph.map fun graph =>
              { graph with blocks := graph.blocks.modify index g } }) ∧
          ∀ f, Block.ofRaw raw' = .error f → Contract.ofRaw a' = .error f) ∧
      ∀ w f, w.isNull = .ok false → (Wire.rawBlockRecord 4).read w = .error f →
        Wire.contractRecord.read (plug outer w) = .error f := by
  obtain ⟨halong, hlast, hread, hconvert, n, hn⟩ := hstands
  obtain ⟨inner, outer, rfl, hinner, houter⟩ := halong.exists_append_surrounds
  have hnull : (plug inner (.numeral numeral)).isNull = .ok false := (holes_plug inner).isNull rfl
  rw [plug_append] at hread
  have hreaches := Wire.reaches_block index
  obtain ⟨raw, hraw, hchange⟩ := hreaches.updates _ _ houter (holes_plug outer) _ a hnull hread
  have hself := Except.ok.inj ((hchange _ (fun _ => raw) hnull hraw).symm.trans hread)
  obtain ⟨_ | graph, hgraph, rfl⟩ := Contract.ofRaw_eq_ok_iff.mp hconvert
  · simp [itemOffset?] at hn
  cases hraws : a.blocks with
  | none => simp [RawGraph, hraws] at hgraph
  | some raws =>
    cases hb : graph.blocks[index]? with
    | none => simp [itemOffset?, hb] at hn
    | some b =>
      have hn' : get? b = some n := by simpa [itemOffset?, hb] using hn
      have hofRaws : Block.ofRaws raws = .ok graph.blocks := by simpa [RawGraph, hraws] using hgraph
      obtain ⟨raw₁, hindex, hofRaw, hmodify⟩ := Block.ofRaws_modify hofRaws hb
      -- The block that was read is the one that is converted.
      obtain rfl : raw = raw₁ := by
        have hraws' : raws.modify index (fun _ => raw) = raws := by
          simpa [modifyItem, hraws] using congrArg Wire.RawContract.blocks hself
        rw [← hraws', List.getElem?_modify_eq] at hindex
        obtain ⟨_, -, heq⟩ := Option.map_eq_some_iff.mp hindex
        exact heq
      have hlast' : ∀ s ∈ inner, s.Last := fun s hs => hlast s (List.mem_append_left outer hs)
      refine ⟨inner, outer, raw, b, rfl, ⟨hinner, hlast', hraw, hofRaw, n, hn'⟩,
        fun w raw' hw hraw' => ?_, fun w f hw hf => ?_⟩
      · refine ⟨_, hchange w (fun _ => raw') hw hraw', fun g hg => ?_, fun f hf => ?_⟩
        · have hblocks := (hmodify raw').1 (g b) hg
          rw [modify_of_getElem? hb g] at hblocks
          refine Contract.ofRaw_eq_ok_iff.mpr ⟨_, ?_, rfl⟩
          simpa only [RawGraph, modifyItem, hraws, Option.map_some] using hblocks
        · simp only [Contract.ofRaw, hraws, modifyItem, Option.map_some, (hmodify raw').2 f hf,
            Except.map]
      · exact (hreaches.focus.fault_of_at houter (at_plug outer _) (at_plug outer w) hnull hw
          hread).2 f hf

/-- A block of a contract takes offsets where blocks do. -/
theorem TakesOffset.inBlock {path : List Step} {get? : Block → Option UInt64}
    {modify : (UInt64 → UInt64) → Block → Block}
    (htakes : TakesOffset (Wire.rawBlockRecord 4).read Block.ofRaw path get? modify)
    (index : Nat) :
    TakesOffset Wire.contractRecord.read Contract.ofRaw
      (path ++ RecordPlace.path (.block index))
      (fun c => itemOffset? get? index (c.controlFlowGraph.map Graph.blocks))
      fun f c => { c with
        controlFlowGraph := c.controlFlowGraph.map fun g =>
          { g with blocks := g.blocks.modify index (modify f) } } where
  accepts := by
    intro surrounds numeral a c hstands x n hn
    obtain ⟨inner, outer, raw, b, rfl, hblock, hchange, -⟩ := hstands.exists_block
    obtain ⟨raw', hread, hraw'⟩ := htakes.accepts hblock x n hn
    obtain ⟨a', hcontract, hconvert, -⟩ := hchange _ raw' ((holes_plug inner).isNull rfl) hread
    rw [plug_append]
    exact ⟨a', hcontract, hconvert _ hraw'⟩
  refuses := by
    intro surrounds numeral a c hstands x f hf
    obtain ⟨inner, outer, raw, b, rfl, hblock, hchange, hfault⟩ := hstands.exists_block
    have hnull : (plug inner (.numeral x)).isNull = .ok false := (holes_plug inner).isNull rfl
    rw [plug_append]
    rcases htakes.refuses hblock x f hf with ⟨g, hread⟩ | ⟨raw', g, hread, hraw'⟩
    · exact .inl ⟨g, hfault _ g hnull hread⟩
    · obtain ⟨a', hcontract, -, hconvert⟩ := hchange _ raw' hnull hread
      exact .inr ⟨a', g, hcontract, hconvert _ hraw'⟩
  breaks := by
    intro stack root root' v a halong hat hv hread hat'
    obtain ⟨inside, outside, rfl, hinside, houtside⟩ := halong.exists_append
    obtain ⟨w, hw, hroot⟩ := hat.exists_append
    obtain ⟨w', hw', hroot'⟩ := hat'.exists_append
    obtain ⟨⟨raw, hraw⟩, hfault⟩ := (Wire.focus_block index).fault_of_at houtside hroot hroot'
      (hw.isNull hv) (hw'.isNull rfl) hread
    obtain ⟨f, hf⟩ := htakes.breaks hinside hw hv hraw hw'
    exact ⟨f, hfault f hf⟩

/-- Offsets outside the blocks of a contract are converted without looking at the blocks. -/
theorem takesOffset_section {path : List Step} {get? : Contract → Option UInt64}
    {amend : (UInt64 → UInt64) → Wire.RawContract → Wire.RawContract}
    {modify : (UInt64 → UInt64) → Contract → Contract}
    (hreaches : Reaches Wire.contractRecord.read path Read.offset amend)
    (hblocks : ∀ f a, (amend f a).blocks = a.blocks)
    (hmodify : ∀ f a graph,
      modify f ⟨a.functions, a.storage, a.disassembled, a.basicBlocks, graph⟩ =
        ⟨(amend f a).functions, (amend f a).storage, (amend f a).disassembled,
          (amend f a).basicBlocks, graph⟩) :
    TakesOffset Wire.contractRecord.read Contract.ofRaw path get? modify := by
  refine .of_reaches hreaches fun f a c hconvert => ?_
  obtain ⟨graph, hgraph, rfl⟩ := Contract.ofRaw_eq_ok_iff.mp hconvert
  rw [hmodify]
  exact Contract.ofRaw_eq_ok_iff.mpr ⟨graph, (hblocks f a).symm ▸ hgraph, rfl⟩

/-- At every place of a contract, a numeral is accepted just in case it is an offset. -/
theorem takesOffset_contract (place : OffsetPlace) :
    TakesOffset Wire.contractRecord.read Contract.ofRaw place.path place.get?
      fun f => place.modify f := by
  cases place with
  | function index =>
    exact takesOffset_section (Wire.reaches_function index) (fun _ _ => rfl) fun _ _ _ => rfl
  | instruction index =>
    exact takesOffset_section (Wire.reaches_instruction index) (fun _ _ => rfl) fun _ _ _ => rfl
  | first index =>
    exact takesOffset_section (Wire.reaches_first index) (fun _ _ => rfl) fun _ _ _ => rfl
  | last index =>
    exact takesOffset_section (Wire.reaches_last index) (fun _ _ => rfl) fun _ _ _ => rfl
  | block index place => exact (takesOffset_block 4 place).inBlock index

/-! ### Texts -/

/-- A text around a number at the end of a path, which is decoded with some number there. In
objects, no later member takes the place of one on the path. -/
inductive AroundNumber {β : Type} (decode : Bytes → Except DecodeFault β) (path : List Step)
    (whole : β) : Bytes → Bytes → Prop where
  | mk {surrounds : List Surround} {numeral : Numeral} {lead text trail : Bytes}
    (htrail : Trail surrounds trail) (hlead : Lead (surrounds.map Surround.frame) lead)
    (halong : Along (surrounds.map Surround.frame) path) (hlast : ∀ s ∈ surrounds, s.Last)
    (htext : numeral.Written text) (hdecode : decode (lead ++ (text ++ trail)) = .ok whole) :
    AroundNumber decode path whole lead trail

/-- At the end of the path a number token is accepted if it is a plain decimal of 64 bits, as the
offset that it writes, and refused otherwise. -/
def TakesPlainDecimals {β : Type} (decode : Bytes → Except DecodeFault β) (path : List Step)
    (get? : β → Option UInt64) (modify : (UInt64 → UInt64) → β → β) : Prop :=
  ∀ {whole : β} {lead trail token : Bytes} {m : UInt64}, AroundNumber decode path whole lead trail →
    get? whole = some m → NumberToken token →
    (∀ n : UInt64, PlainDecimal token n.toNat →
      decode (lead ++ (token ++ trail)) = .ok (modify (fun _ => n) whole) ∧
        get? (modify (fun _ => n) whole) = some n) ∧
    ((¬∃ n : UInt64, PlainDecimal token n.toNat) →
      ∃ f, decode (lead ++ (token ++ trail)) = .error (.schema f))

/-- What holds of the numerals at a place holds of the tokens there, since those with a superfluous
zero break the tree. -/
theorem TakesOffset.plainDecimals {α β : Type} {read : Node → Except Fault α}
    {convert : α → Except DecodeFault β} {path : List Step} {get? : β → Option UInt64}
    {modify : (UInt64 → UInt64) → β → β} (htakes : TakesOffset read convert path get? modify)
    (hget : ∀ f b, get? (modify f b) = (get? b).map f) :
    TakesPlainDecimals (decodeWhole read convert) path get? modify := by
  intro whole lead trail token m haround hm htoken
  cases haround with
  | @mk surrounds numeral _ text _ htrail hlead halong hlast htext hdecode =>
    obtain ⟨a, hwhole, hconvert⟩ := decodeWhole_eq_ok_iff.mp hdecode
    obtain ⟨hread, -⟩ := readWhole_eq_ok_iff.mp hwhole
    have hdocument := htrail.ofBytes_plug hlead (.numeral htext)
    rw [hdocument] at hread
    have hstands : Stands read convert path get? surrounds numeral a whole :=
      ⟨halong, hlast, hread, hconvert, m, hm⟩
    refine ⟨fun n hplain => ⟨?_, ?_⟩, fun hplain => ?_⟩
    · obtain ⟨x, hx, hoffset⟩ := hplain.exists_numeral
      obtain ⟨a', hread', hconvert'⟩ := htakes.accepts hstands x n hoffset
      refine decodeWhole_eq_ok_iff.mpr ⟨a', readWhole_eq_ok_iff.mpr ?_, hconvert'⟩
      rw [htrail.ofBytes_plug hlead (.numeral hx)]
      exact ⟨hread', rfl⟩
    · rw [hget, hm, Option.map_some]
    · rcases htoken.written_or_zeroLed with ⟨x, hx⟩ | hzero
      · obtain ⟨f, hf⟩ := Numeral.offset_of_not_plain hx hplain
        have hdocument' := htrail.ofBytes_plug hlead (.numeral hx)
        -- The fault is met by the reader, or only when untyped data is converted.
        rcases htakes.refuses hstands x f hf with ⟨g, hread'⟩ | ⟨a', g, hread', hconvert'⟩
        · refine ⟨.text g, decodeWhole_of_fault ?_⟩
          rw [hdocument']
          exact hread'
        · refine ⟨g, ?_⟩
          simp [decodeWhole, readWhole, hdocument', hread', hconvert']
      · have hat := hlead.at_of_zeroLed hzero trail
        obtain ⟨f, hf⟩ := htakes.breaks halong (at_plug surrounds _) rfl hread hat
        exact ⟨.text f, decodeWhole_of_fault hf⟩

/-- A number token in the place of an offset of a contract or a block, be it read directly or from
untyped data, is accepted exactly if it is a plain decimal of 64 bits, and then it is the offset.
With any other token the text does not fit the schema. -/
theorem decode_offsets :
    (∀ place : OffsetPlace, TakesPlainDecimals Contract.decode place.path place.get?
      fun f => place.modify f) ∧
    ∀ place : BlockPlace, TakesPlainDecimals Block.decode place.path place.get?
      fun f => place.modify f :=
  ⟨fun place => (takesOffset_contract place).plainDecimals place.get?_modify,
    fun place => (takesOffset_block 1 place).plainDecimals place.get?_modify⟩

set_option maxRecDepth 4000 in
/-- The largest offset is accepted, and the next number is not. -/
theorem decode_offsets_largest :
    (Contract.decode (Bytes.ofText "\x7b\"basicBlocks\":[[18446744073709551615,3]]\x7d") =
        .ok { basicBlocks := some [⟨18446744073709551615, 3⟩] } ∧
      ∃ f, Contract.decode (Bytes.ofText
        "\x7b\"basicBlocks\":[[18446744073709551616,3]]\x7d") = .error (.schema f)) ∧
    Block.decode (Bytes.ofText "[0,1,\"Jump\",\x7b\"to\":18446744073709551615\x7d]") =
        .ok ⟨0, 1, .jump 18446744073709551615⟩ ∧
      ∃ f, Block.decode (Bytes.ofText
        "[0,1,\"Jump\",\x7b\"to\":18446744073709551616\x7d]") = .error (.schema f) := by
  have hnone : Blank [] := by decide
  have hlargest := plainDecimal_digits (18446744073709551615 : UInt64).toNat
  have htooLarge := plainDecimal_digits 18446744073709551616
  have hnot : ¬∃ n : UInt64,
      PlainDecimal (digitBytes (Decimal.digits 18446744073709551616)) n.toNat := by
    rintro ⟨n, hn⟩
    have hlt := n.toNat_lt
    have heq := hn.unique htooLarge
    omega
  constructor
  · obtain ⟨key, hkey, hkeyText⟩ := exists_pieces "basicBlocks"
    obtain ⟨three, hthreeText, -⟩ := prints_offset 3
    have hlead := Lead.firstItem (.firstItem
      (.firstMember (.top hnone) hnone hkeyText hnone hnone) hnone) hnone
    have htrail : Trail [.items [] [three], .items [] [], .member [] ⟨key, .closed⟩ []] _ :=
      .items hnone (.lastItem hnone hthreeText hnone)
        (.lastItem hnone (.lastMember hnone (.top hnone)))
    have haccepted : Contract.decode (Bytes.ofText "\x7b\"basicBlocks\":[[7,3]]\x7d") =
        .ok { basicBlocks := some [⟨7, 3⟩] } := rfl
    have haround : AroundNumber Contract.decode (OffsetPlace.path (.first 0))
        { basicBlocks := some [⟨7, 3⟩] } _ _ :=
      .mk htrail hlead
        (.cons rfl (.cons rfl (.cons ⟨_, by simp, Quoted.text_of_spelled hkey⟩ .nil)))
        (by simp [Surround.Last]) (written_digits false 7)
        ((congrArg Contract.decode (by decide +kernel)).trans haccepted)
    have haccepts := (decode_offsets.1 (.first 0) haround rfl hlargest.numberToken).1 _ hlargest
    obtain ⟨f, hf⟩ := (decode_offsets.1 (.first 0) haround rfl htooLarge.numberToken).2 hnot
    exact ⟨(congrArg Contract.decode (by decide +kernel)).trans haccepts.1,
      f, (congrArg Contract.decode (by decide +kernel)).trans hf⟩
  · obtain ⟨key, hkey, hkeyText⟩ := exists_pieces "to"
    obtain ⟨zero, hzeroText, -⟩ := prints_offset 0
    obtain ⟨one, honeText, -⟩ := prints_offset 1
    obtain ⟨jump, hjumpText, -⟩ := prints_text "Jump"
    have hlead := Lead.firstMember (.nextItem (.nextItem (.nextItem (.firstItem (.top hnone) hnone)
      hzeroText hnone hnone) honeText hnone hnone) hjumpText hnone hnone) hnone hkeyText hnone hnone
    have htrail : Trail [.member [] ⟨key, .closed⟩ [], .items [jump, one, zero] []] _ :=
      .lastMember hnone (.lastItem hnone (.top hnone))
    have haccepted : Block.decode (Bytes.ofText "[0,1,\"Jump\",\x7b\"to\":7\x7d]") =
        .ok ⟨0, 1, .jump 7⟩ := rfl
    have haround :
        AroundNumber Block.decode (BlockPlace.path (.exit .target)) ⟨0, 1, .jump 7⟩ _ _ :=
      .mk htrail hlead
        (.cons ⟨_, List.mem_singleton_self _, Quoted.text_of_spelled hkey⟩ (.cons rfl .nil))
        (by simp [Surround.Last]) (written_digits false 7)
        ((congrArg Block.decode (by decide +kernel)).trans haccepted)
    have haccepts :=
      (decode_offsets.2 (.exit .target) haround rfl hlargest.numberToken).1 _ hlargest
    obtain ⟨f, hf⟩ := (decode_offsets.2 (.exit .target) haround rfl htooLarge.numberToken).2 hnot
    exact ⟨(congrArg Block.decode (by decide +kernel)).trans haccepts.1,
      f, (congrArg Block.decode (by decide +kernel)).trans hf⟩

end EngineHost
