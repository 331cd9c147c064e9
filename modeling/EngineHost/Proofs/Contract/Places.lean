import EngineHost.Proofs.Contract.Draft
import EngineHost.Proofs.Json.Update

/-!
# The places of a contract

The paths to the records of a contract, and what its reader makes of each of them.
-/

namespace EngineHost

open Json

namespace Wire

/-! ### Fields -/

/-- A contract keeps its functions. -/
theorem stores_functions :
    contractRecord.Stores ["functions"] 0 (Read.optional (Read.list functionRecord.read))
      (fun x d => { d with functions := some x })
      fun f c => { c with functions := f c.functions } := by
  refine contractRecord_laidOut.stores rfl rfl ?_
  rintro x d _ f ⟨⟩
  rfl

/-- A contract has the storage layout as its second field. -/
theorem hasField_storage :
    contractRecord.HasField ["storage"] 1 (Read.optional (Read.list storageRecord.read))
      fun x d => { d with storage := some x } :=
  ⟨by decide, _, rfl, fun _ _ => rfl⟩

/-- A contract keeps its instructions. -/
theorem stores_disassembled :
    contractRecord.Stores ["disassembled"] 2 (Read.optional (Read.list instruction))
      (fun x d => { d with disassembled := some x })
      fun f c => { c with disassembled := f c.disassembled } := by
  refine contractRecord_laidOut.stores rfl rfl ?_
  rintro x d _ f ⟨⟩
  rfl

/-- A contract keeps its basic blocks, under either name. -/
theorem stores_basicBlocks :
    contractRecord.Stores ["basic_blocks", "basicBlocks"] 3 (Read.optional (Read.list basicBlock))
      (fun x d => { d with basicBlocks := some x })
      fun f c => { c with basicBlocks := f c.basicBlocks } := by
  refine contractRecord_laidOut.stores rfl rfl ?_
  rintro x d _ f ⟨⟩
  rfl

/-- A contract keeps its graph, under either name. -/
theorem stores_controlFlowGraph :
    contractRecord.Stores ["control_flow_graph", "controlFlowGraph"] 4
      (Read.optional (graphRecord "WireControlFlowGraph" (rawBlockRecord 4).read).read)
      (fun x d => { d with blocks := some x }) fun f c => { c with blocks := f c.blocks } := by
  refine contractRecord_laidOut.stores rfl rfl ?_
  rintro x d _ f ⟨⟩
  rfl

/-- A graph is kept as its blocks. -/
theorem stores_blocks {α : Type} (name : String) (block : Node → Except Fault α) :
    (graphRecord name block).Stores ["blocks"] 0 (Read.list block) (fun x _ => some x)
      fun f bs => f bs := by
  refine (graphRecord_laidOut name block).stores rfl rfl ?_
  rintro x d _ f ⟨⟩
  rfl

/-- A block keeps its data, untyped. -/
theorem stores_data (depth : Nat) :
    (rawBlockRecord depth).Stores ["data"] 3 (Node.value (nestingLimit - depth))
      (fun x d => { d with data := some x }) fun f b => { b with data := f b.data } := by
  refine (rawBlockRecord_laidOut depth).stores rfl rfl ?_
  rintro x ⟨_ | start, _ | last, _ | tag, data⟩ a f hbuild <;> cases hbuild
  rfl

end Wire

/-! ### Records -/

/-- A record of a contract: the contract itself, a function, a variable in the storage layout, the
control flow graph, or a block of the graph. -/
inductive RecordPlace where
  | contract
  | function (index : Nat)
  | storage (index : Nat)
  | graph
  | block (index : Nat)

namespace RecordPlace

/-- The path to the record, from the inside out. -/
def path : RecordPlace → List Step
  | .contract => []
  | .function index => [.item index, .field ["functions"] 0]
  | .storage index => [.item index, .field ["storage"] 1]
  | .graph => [.field ["control_flow_graph", "controlFlowGraph"] 4]
  | .block index =>
    [.item index, .field ["blocks"] 0, .field ["control_flow_graph", "controlFlowGraph"] 4]

/-- The names of the record's fields. Messages use the first name of a field. -/
def fields : RecordPlace → List (List String)
  | .contract => [["functions"], ["storage"], ["disassembled"], ["basic_blocks", "basicBlocks"],
    ["control_flow_graph", "controlFlowGraph"]]
  | .function _ => [["selector"], ["bytecode_offset", "bytecodeOffset"], ["arguments"],
    ["state_mutability", "stateMutability"]]
  | .storage _ => [["slot"], ["offset"], ["type"], ["reads"], ["writes"]]
  | .graph => [["blocks"]]
  | .block _ => [["start"], ["end"], ["type"], ["data"]]

end RecordPlace

namespace Wire

open RecordPlace

/-- The reader of contracts reads the whole contract. -/
theorem focus_contract : Focus contractRecord.read (path .contract) contractRecord.read := .refl _

/-- The reader of contracts reads every function by its own reader. -/
theorem focus_function (index : Nat) :
    Focus contractRecord.read (path (.function index)) functionRecord.read :=
  (Focus.field stores_functions.toHasField).trans (Focus.list _ index).optional

/-- The reader of contracts reads every storage record by its own reader. -/
theorem focus_storage (index : Nat) :
    Focus contractRecord.read (path (.storage index)) storageRecord.read :=
  (Focus.field hasField_storage).trans (Focus.list _ index).optional

/-- The reader of contracts reads the graph by its own reader. -/
theorem focus_graph : Focus contractRecord.read (path .graph)
    (graphRecord "WireControlFlowGraph" (rawBlockRecord 4).read).read :=
  (Focus.field stores_controlFlowGraph.toHasField).trans (Focus.refl _).optional

/-- The reader of contracts reads every block by its own reader. -/
theorem focus_block (index : Nat) :
    Focus contractRecord.read (path (.block index)) (rawBlockRecord 4).read :=
  focus_graph.trans ((Focus.field (stores_blocks _ _).toHasField).trans (Focus.list _ index))

/-- The reader of contracts reads the data of every block as an untyped value. -/
theorem focus_data (index : Nat) : Focus contractRecord.read
    (.field ["data"] 3 :: path (.block index)) (Node.value (nestingLimit - 4)) :=
  (focus_block index).trans (Focus.field (stores_data 4).toHasField)

end Wire

end EngineHost
