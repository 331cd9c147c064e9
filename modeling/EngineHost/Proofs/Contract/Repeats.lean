import EngineHost.Proofs.Contract.EntryPoints
import EngineHost.Proofs.Contract.Places
import EngineHost.Proofs.Json.Printing
import EngineHost.Proofs.Json.Repeats
import EngineHost.Proofs.Json.Spelling

/-!
# Repeated keys in a contract

A contract is refused at the second key for a field, in whichever of its records and under
whichever name of the field, whatever follows. In the data of a block, keys may be repeated.
-/

namespace EngineHost

open Json

/-- The beginning of a contract's text up to the end of a member of one of its records, where this
member or an earlier one gives the field with these names. -/
inductive AfterMember (place : RecordPlace) (names : List String) : Bytes → Prop where
  | mk {stack : List Frame} {done : List (Quoted × Node)} {q : Quoted} {node : Node}
    {lead value w : Bytes} {b : UInt8} {c : Contract} {m : Quoted × Node} {name : String}
    (hlead : Lead (.member done q :: stack) lead) (hvalue : Written (.value node) value)
    (halong : Along stack place.path) (hw : Blank w) (hb : b = 44 ∨ b = 125) (rest : Bytes)
    (hcontract : Contract.decode (lead ++ (value ++ (w ++ b :: rest))) = .ok c)
    (hm : m ∈ (q, node) :: done) (hname : name ∈ names) (hkey : m.1.text = .ok name) :
    AfterMember place names (lead ++ value)

/-- The containers around a place inside the data of a block. -/
def InData (surrounds : List Surround) : Prop :=
  ∃ inner outer index, surrounds = inner ++ outer ∧
    Along (outer.map Surround.frame) (.field ["data"] 3 :: RecordPlace.path (.block index))

/-- A second key for a field of a record is refused, whatever follows it. -/
theorem AfterMember.decode_eq {δ α : Type} {record : Record Node δ α} {place : RecordPlace}
    (hlaid : record.LaidOut) (hfields : record.fields.map Field.names = place.fields)
    (hfocus : Focus Wire.contractRecord.read place.path record.read) {name : String}
    {others : List String} (hnames : name :: others ∈ place.fields) {text : Bytes}
    (hafter : AfterMember place (name :: others) text) {second : String} {ps : List Piece}
    {w w' key : Bytes} (hsecond : second ∈ name :: others) (hspelled : Spelled second.toList ps)
    (hkeyText : PiecesWritten ps key) (hw : Blank w) (hw' : Blank w') (tail : Bytes) :
    Contract.decode (text ++ (w ++ 44 :: (w' ++ 34 :: (key ++ 34 :: tail)))) =
      .error (.schema (.text (.duplicateField name))) := by
  cases hafter with
  | @mk stack done q node lead value w₀ b c m first hlead hvalue halong hw₀ hb rest hcontract hm
      hfirst hkey =>
    obtain ⟨raw, hwhole, -⟩ := decodeWhole_eq_ok_iff.mp hcontract
    obtain ⟨hread, -⟩ := readWhole_eq_ok_iff.mp hwhole
    have hends : Scan.Ends b := by rcases hb with rfl | rfl <;> simp [Scan.Ends]
    obtain ⟨more, ending, hat⟩ :=
      Scan.exists_of_at_member (hlead.at_of_ends hvalue hw₀ hends rest)
    obtain ⟨v, hinside⟩ := hlead.exists_at_of_key hvalue hw hw' hkeyText tail
    obtain ⟨more', ending', hat'⟩ := Scan.exists_of_at_member hinside
    obtain ⟨⟨a, hrecord⟩, hfault⟩ := hfocus.fault_of_at halong hat hat' rfl rfl hread
    have hfront : done.reverse ++ (q, node) :: more = ((q, node) :: done).reverse ++ more := by
      simp
    rw [hfront] at hrecord
    rw [List.append_assoc]
    refine decodeWhole_of_fault (hfault _ ?_)
    rw [← hfields] at hnames
    obtain ⟨field, hfield, heq⟩ := List.mem_map.mp hnames
    obtain rfl : field.name = name := (List.cons.inj heq).1
    rw [← heq] at hfirst hsecond
    exact hlaid.read_repeated hfield hrecord (List.mem_reverse.mpr hm) hfirst hkey hsecond
      (Quoted.text_of_spelled hspelled) v

/-- Objects inside the data of a block that differ by repeated members make no difference. -/
theorem InData.decode_eq {surrounds : List Surround} (hdata : InData surrounds)
    {lead text text' trail : Bytes} {members kept : List (Quoted × Node)}
    (hlead : Lead (surrounds.map Surround.frame) lead) (htrail : Trail surrounds trail)
    (htext : Written (.value (.object members .closed)) text)
    (htext' : Written (.value (.object kept .closed)) text')
    (hkept : WithoutRepeats (surrounds.length + 1) members kept) :
    Contract.decode (lead ++ (text ++ trail)) = Contract.decode (lead ++ (text' ++ trail)) := by
  obtain ⟨inner, outer, index, rfl, halong⟩ := hdata
  have hdocument := htrail.ofBytes_plug hlead htext
  have hdocument' := htrail.ofBytes_plug hlead htext'
  have hread : Wire.contractRecord.read (plug (inner ++ outer) (.object members .closed)) =
      Wire.contractRecord.read (plug (inner ++ outer) (.object kept .closed)) := by
    have houter : outer.length = 4 := by simpa [RecordPlace.path] using halong.length_eq
    have hinner : nestingLimit ≤ (inner ++ outer).length + (nestingLimit - 4 - inner.length) := by
      rw [List.length_append]
      omega
    have hvalue := Node.value_plug_eq inner (Node.value_withoutRepeats hinner hkept)
    rw [plug_append, plug_append]
    exact (Wire.focus_data index).read_plug_eq halong ((holes_plug inner).isNull rfl)
      ((holes_plug inner).isNull rfl) hvalue
  simp only [Contract.decode, decodeWhole, readWhole, hdocument, hdocument', hread]

/-- In the text of a contract, a second key for a field of any record is refused with the first
name of the field, whatever follows the key. Inside the data of a block, members that are repeated
later may be left out. -/
theorem Contract.decode_repeats :
    (∀ (place : RecordPlace) {name : String} {others : List String} {text : Bytes},
      name :: others ∈ place.fields → AfterMember place (name :: others) text →
      ∀ {second : String} {ps : List Piece} {w w' key : Bytes}, second ∈ name :: others →
        Json.Spelled second.toList ps → PiecesWritten ps key → Blank w → Blank w' →
        ∀ tail, Contract.decode (text ++ (w ++ 44 :: (w' ++ 34 :: (key ++ 34 :: tail)))) =
          .error (.schema (.text (.duplicateField name)))) ∧
    (∀ {surrounds : List Surround} {lead text text' trail : Bytes}
        {members kept : List (Quoted × Node)}, InData surrounds →
      Lead (surrounds.map Surround.frame) lead → Trail surrounds trail →
      Written (.value (.object members .closed)) text →
      Written (.value (.object kept .closed)) text' →
      WithoutRepeats (surrounds.length + 1) members kept →
        Contract.decode (lead ++ (text ++ trail)) =
          Contract.decode (lead ++ (text' ++ trail))) := by
  constructor
  · intro place name others text hnames hafter second ps w w' key hsecond hspelled hkey hw hw' tail
    cases place with
    | contract =>
      exact hafter.decode_eq Wire.contractRecord_laidOut rfl Wire.focus_contract hnames hsecond
        hspelled hkey hw hw' tail
    | function index =>
      exact hafter.decode_eq Wire.functionRecord_laidOut rfl (Wire.focus_function index) hnames
        hsecond hspelled hkey hw hw' tail
    | storage index =>
      exact hafter.decode_eq Wire.storageRecord_laidOut rfl (Wire.focus_storage index) hnames
        hsecond hspelled hkey hw hw' tail
    | graph =>
      exact hafter.decode_eq (Wire.graphRecord_laidOut _ _) rfl Wire.focus_graph hnames hsecond
        hspelled hkey hw hw' tail
    | block index =>
      exact hafter.decode_eq (Wire.rawBlockRecord_laidOut 4) rfl (Wire.focus_block index) hnames
        hsecond hspelled hkey hw hw' tail
  · intro surrounds lead text text' trail members kept hdata hlead htrail htext htext' hkept
    exact hdata.decode_eq hlead htrail htext htext' hkept

set_option maxRecDepth 4000 in
/-- A repeated field is refused in a function, under its other name too; in the data of a block, the
last of two members counts. -/
theorem Contract.decode_repeats_offset :
    Contract.decode (Bytes.ofText
      "\x7b\"functions\":[\x7b\"bytecode_offset\":1,\"bytecodeOffset\"?") =
        .error (.schema (.text (.duplicateField "bytecode_offset"))) ∧
    Contract.decode (Bytes.ofText
      "\x7b\"controlFlowGraph\":[[[0,1,\"Jump\",\x7b\"to\":[null],\"to\":7\x7d]]]\x7d") =
        Contract.decode (Bytes.ofText
          "\x7b\"controlFlowGraph\":[[[0,1,\"Jump\",\x7b\"to\":7\x7d]]]\x7d") := by
  have hnone : Blank [] := by decide
  constructor
  · obtain ⟨functions, hfunctions, hfunctionsText⟩ := exists_pieces "functions"
    obtain ⟨offset, hoffset, hoffsetText⟩ := exists_pieces "bytecode_offset"
    obtain ⟨other, hother, hotherText⟩ := exists_pieces "bytecodeOffset"
    obtain ⟨one, honeText, -⟩ := prints_offset 1
    have hlead := Lead.firstMember
      (.firstItem (.firstMember (.top hnone) hnone hfunctionsText hnone hnone) hnone) hnone
      hoffsetText hnone hnone
    have halong : Along [.items [], .member [] ⟨functions, .closed⟩]
        (RecordPlace.path (.function 0)) :=
      .cons rfl (.cons ⟨_, List.mem_singleton_self _, Quoted.text_of_spelled hfunctions⟩ .nil)
    have haccepted : Contract.decode (Bytes.ofText
      "\x7b\"functions\":[\x7b\"bytecode_offset\":1,\"selector\":\"a9059cbb\"\x7d]\x7d") =
        .ok { functions := some [⟨⟨[0xa9, 0x05, 0x9c, 0xbb], rfl⟩, 1, none, none⟩] } := rfl
    have hafter : AfterMember (.function 0) ["bytecode_offset", "bytecodeOffset"] _ :=
      .mk hlead honeText halong hnone (.inl rfl)
        (Bytes.ofText "\"selector\":\"a9059cbb\"\x7d]\x7d")
        ((congrArg Contract.decode (by decide +kernel)).trans haccepted) (List.mem_cons_self ..)
        (List.mem_cons_self ..) (Quoted.text_of_spelled hoffset)
    have hrepeated := Contract.decode_repeats.1 (.function 0) (by simp [RecordPlace.fields]) hafter
      (by simp) hother hotherText hnone hnone (Bytes.ofText "?")
    exact (congrArg Contract.decode (by decide +kernel)).trans hrepeated
  · obtain ⟨graph, hgraph, hgraphText⟩ := exists_pieces "controlFlowGraph"
    obtain ⟨target, htarget, htargetText⟩ := exists_pieces "to"
    obtain ⟨zero, hzeroText, -⟩ := prints_offset 0
    obtain ⟨one, honeText, -⟩ := prints_offset 1
    obtain ⟨seven, hsevenText, -⟩ := prints_offset 7
    obtain ⟨jump, hjumpText, -⟩ := prints_text "Jump"
    have hlead := Lead.nextItem (.nextItem (.nextItem (.firstItem (.firstItem (.firstItem
      (.firstMember (.top hnone) hnone hgraphText hnone hnone) hnone) hnone) hnone)
      hzeroText hnone hnone) honeText hnone hnone) hjumpText hnone hnone
    have htrail : Trail [.items [jump, one, zero] [], .items [] [], .items [] [],
        .member [] ⟨graph, .closed⟩ []] _ :=
      .lastItem hnone (.lastItem hnone (.lastItem hnone (.lastMember hnone (.top hnone))))
    have hrepeatedText := Written.object (.member hnone htargetText hnone hnone
      (.array (.lastItem hnone .null hnone)) hnone
      (.lastMember hnone htargetText hnone hnone hsevenText hnone))
    have hkeptText := Written.object (.lastMember hnone htargetText hnone hnone hsevenText hnone)
    have hdata : InData [.items [jump, one, zero] [], .items [] [], .items [] [],
        .member [] ⟨graph, .closed⟩ []] :=
      ⟨[], _, 0, rfl, .cons rfl (.cons rfl (.cons rfl
        (.cons ⟨_, by simp, Quoted.text_of_spelled hgraph⟩ .nil)))⟩
    have hkept : WithoutRepeats 5
        [(⟨target, .closed⟩, .array [.null] .closed), (⟨target, .closed⟩, seven)]
        [(⟨target, .closed⟩, seven)] :=
      .drop (Quoted.text_of_spelled htarget) (List.mem_cons_self ..)
        (Quoted.text_of_spelled htarget) (.array (by simp [Node.Strict.null]))
        (by simp [Node.depth, Node.itemsDepth, nestingLimit]) (.keep _ .nil)
    have hsame := Contract.decode_repeats.2 hdata hlead htrail hrepeatedText hkeptText hkept
    refine (congrArg Contract.decode ?_).trans (hsame.trans (congrArg Contract.decode ?_))
    · decide +kernel
    · decide +kernel

end EngineHost
