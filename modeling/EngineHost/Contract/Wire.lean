import EngineHost.Contract.Basic
import EngineHost.Json.Record

/-!
# Reading contracts

The records in which an engine reports a contract. A block is first read with its data untyped;
the data is looked at afterwards, by the block's tag.
-/

namespace EngineHost

open Json

namespace Wire

variable {ν : Type} [Source ν]

/-- A `Selector`, written as text and read with its `from_str`. -/
def selector (v : ν) : Except Fault Selector :=
  match Read.string v with
  | .error f => .error f
  | .ok s =>
    match Selector.parse s with
    | .error f => .error (.refused (Selector.faultMessage f))
    | .ok w => .ok w

/-- A storage `Slot`, written as text and read with its `from_str`. -/
def slot (v : ν) : Except Fault Slot :=
  match Read.string v with
  | .error f => .error f
  | .ok s =>
    match Slot.parse s with
    | .error f => .error (.refused (Slot.faultMessage f))
    | .ok w => .ok w

/-- `storage_offset`: a byte of a slot. -/
def slotOffset (v : ν) : Except Fault (Fin 32) :=
  match Read.natural 256 .byte v with
  | .error f => .error f
  | .ok n =>
    if h : n < 32 then .ok ⟨n, h⟩
    else .error (.refused ("storage offset " ++ Decimal.text n ++ " outside 0..=31"))

/-- The `StateMutability` with this name. -/
def mutabilityOfName (name : String) : Except Fault Mutability :=
  match Mutability.ofName? name with
  | some m => .ok m
  | none => .error (.unknownVariant name (Mutability.all.map (·.name)))

/-- A `StateMutability`, written as its name, or as an object whose only key is the name and whose
value is `null`. An object that has no key is faulty as objects are, and an empty one lacks a value.
-/
def mutability : Node → Except Fault Mutability
  | .quoted q =>
    match q.text with
    | .error f => .error f
    | .ok name => mutabilityOfName name
  | .object [] ending => .error (ending.next?.getD .expectedValue)
  | .object ((key, value) :: rest) ending =>
    match key.text with
    | .error f => .error f
    | .ok name =>
      match mutabilityOfName name with
      | .error f => .error f
      | .ok m =>
        match Read.unit value with
        | .error f => .error f
        | .ok () =>
          match rest, ending with
          | [], .closed => .ok m
          | [], .unfinished => .error .endInObject
          | _, _ => .error .expectedValue
  | .broken b => .error (if b.started then .expectedValue else b.fault)
  | _ => .error .expectedValue

/-- What has been read of a function. -/
structure FunctionDraft where
  selector : Option Selector := none
  bytecodeOffset : Option UInt64 := none
  arguments : Option (Option String) := none
  mutability : Option (Option Mutability) := none

/-- The record `Function`. -/
def functionRecord : Record Node FunctionDraft Function where
  name := "Function"
  fields := [
    { name := "selector"
      read := selector
      put := fun x d => { d with selector := some x }
      get := (·.selector) },
    { name := "bytecode_offset"
      otherName := some "bytecodeOffset"
      read := Read.offset
      put := fun x d => { d with bytecodeOffset := some x }
      get := (·.bytecodeOffset) },
    { name := "arguments"
      optional := true
      read := Read.optional Read.string
      put := fun x d => { d with arguments := some x }
      get := (·.arguments) },
    { name := "state_mutability"
      otherName := some "stateMutability"
      optional := true
      read := Read.optional mutability
      put := fun x d => { d with mutability := some x }
      get := (·.mutability) }]
  blank := {}
  build := fun d => do
    let selector ← require "selector" d.selector
    let bytecodeOffset ← require "bytecode_offset" d.bytecodeOffset
    return ⟨selector, bytecodeOffset, d.arguments.getD none, d.mutability.getD none⟩

/-- What has been read of a storage record. -/
structure StorageDraft where
  slot : Option Slot := none
  offset : Option (Fin 32) := none
  type : Option String := none
  reads : Option (List Selector) := none
  writes : Option (List Selector) := none

/-- The record `StorageRecord` of a variable in the storage layout. -/
def storageRecord : Record Node StorageDraft StorageRecord where
  name := "StorageRecord"
  fields := [
    { name := "slot"
      read := slot
      put := fun x d => { d with slot := some x }
      get := (·.slot) },
    { name := "offset"
      read := slotOffset
      put := fun x d => { d with offset := some x }
      get := (·.offset) },
    { name := "type"
      read := Read.string
      put := fun x d => { d with type := some x }
      get := (·.type) },
    { name := "reads"
      optional := true
      read := Read.list selector
      put := fun x d => { d with reads := some x }
      get := (·.reads) },
    { name := "writes"
      optional := true
      read := Read.list selector
      put := fun x d => { d with writes := some x }
      get := (·.writes) }]
  blank := {}
  build := fun d => do
    let slot ← require "slot" d.slot
    let offset ← require "offset" d.offset
    let type ← require "type" d.type
    return ⟨slot, offset, type, d.reads.getD [], d.writes.getD []⟩

/-- An `Instruction`, which `PairVisitor` reads: its offset and its text. -/
def instruction (v : ν) : Except Fault Instruction :=
  (Read.pair "instruction" Read.offset Read.string v).map fun (offset, opcode) => ⟨offset, opcode⟩

/-- A `BasicBlock`, which `PairVisitor` reads: the offsets of its first and its last instruction. -/
def basicBlock (v : ν) : Except Fault BasicBlock :=
  (Read.pair "basic block" Read.offset Read.offset v).map fun (first, last) => ⟨first, last⟩

/-- What has been read of a candidate of a computed jump. -/
structure DynamicJumpDraft where
  path : Option (List UInt64) := none
  target : Option (Option UInt64) := none

/-- The record `DynamicJump` of a candidate of a computed jump. -/
def dynamicJumpRecord : Record ν DynamicJumpDraft DynamicJump where
  name := "DynamicJump"
  fields := [
    { name := "path"
      read := Read.list Read.offset
      put := fun x d => { d with path := some x }
      get := (·.path) },
    { name := "to"
      optional := true
      read := Read.optional Read.offset
      put := fun x d => { d with target := some x }
      get := (·.target) }]
  blank := {}
  build := fun d => do
    let path ← require "path" d.path
    return ⟨path, d.target.getD none⟩

/-- The record `TerminateData`: the data of a block that ends the run. -/
def terminateRecord : Record Value (Option Bool) Exit where
  name := "TerminateData"
  fields := [
    { name := "success"
      read := Read.boolean
      put := fun x _ => some x
      get := id }]
  blank := none
  build := fun d => (require "success" d).map .terminate

/-- The record `JumpData`: the data of a block that jumps to a known place. -/
def jumpRecord : Record Value (Option UInt64) Exit where
  name := "JumpData"
  fields := [
    { name := "to"
      read := Read.offset
      put := fun x _ => some x
      get := id }]
  blank := none
  build := fun d => (require "to" d).map .jump

/-- What has been read of two branches. -/
structure BranchDraft (α : Type) where
  trueTo : Option α := none
  falseTo : Option UInt64 := none

/-- The record of two branches, of which the first is read by `taken`. Of this form are `JumpiData`
and `DynamicJumpiData`. -/
def branchRecord {α : Type} (name : String) (taken : Value → Except Fault α)
    (exit : α → UInt64 → Exit) : Record Value (BranchDraft α) Exit where
  name := name
  fields := [
    { name := "true_to"
      read := taken
      put := fun x d => { d with trueTo := some x }
      get := (·.trueTo) },
    { name := "false_to"
      read := Read.offset
      put := fun x d => { d with falseTo := some x }
      get := (·.falseTo) }]
  blank := {}
  build := fun d => do
    let trueTo ← require "true_to" d.trueTo
    let falseTo ← require "false_to" d.falseTo
    return exit trueTo falseTo

/-- The record `JumpiData`: the data of a block that jumps to one of two known places. -/
def jumpIfRecord : Record Value (BranchDraft UInt64) Exit :=
  branchRecord "JumpiData" Read.offset .jumpIf

/-- The record `DynamicJumpData`: the data of a block that jumps to a computed place. -/
def dynamicJumpDataRecord : Record Value (Option (List DynamicJump)) Exit where
  name := "DynamicJumpData"
  fields := [
    { name := "to"
      read := Read.list dynamicJumpRecord.read
      put := fun x _ => some x
      get := id }]
  blank := none
  build := fun d => (require "to" d).map .dynamicJump

/-- The record `DynamicJumpiData`: the data of a block that jumps to a computed place or goes on to
a known one. -/
def dynamicJumpIfRecord : Record Value (BranchDraft (List DynamicJump)) Exit :=
  branchRecord "DynamicJumpiData" (Read.list dynamicJumpRecord.read) .dynamicJumpIf

/-- The reader of the data that a tag announces, by which `Block.try_from` dispatches. -/
def exitReader? (tag : String) : Option (Value → Except Fault Exit) :=
  if tag = "Terminate" then some terminateRecord.read
  else if tag = "Jump" then some jumpRecord.read
  else if tag = "Jumpi" then some jumpIfRecord.read
  else if tag = "DynamicJump" then some dynamicJumpDataRecord.read
  else if tag = "DynamicJumpi" then some dynamicJumpIfRecord.read
  else none

/-- `RawBlock`: a block whose data is still untyped. -/
structure RawBlock where
  /-- The offset of the first instruction. -/
  start : UInt64
  /-- The offset of the last instruction. -/
  last : UInt64
  /-- The tag that tells what the data is. -/
  tag : String
  /-- The data. -/
  data : Value

/-- What has been read of a block. -/
structure RawBlockDraft where
  start : Option UInt64 := none
  last : Option UInt64 := none
  tag : Option String := none
  data : Option Value := none

/-- The record `RawBlock` of a block around which `depth` arrays and objects are open, the block
included. -/
def rawBlockRecord (depth : Nat) : Record Node RawBlockDraft RawBlock where
  name := "RawBlock"
  fields := [
    { name := "start"
      read := Read.offset
      put := fun x d => { d with start := some x }
      get := (·.start) },
    { name := "end"
      read := Read.offset
      put := fun x d => { d with last := some x }
      get := (·.last) },
    { name := "type"
      read := Read.string
      put := fun x d => { d with tag := some x }
      get := (·.tag) },
    { name := "data"
      optional := true
      read := Node.value (nestingLimit - depth)
      put := fun x d => { d with data := some x }
      get := (·.data) }]
  blank := {}
  build := fun d => do
    let start ← require "start" d.start
    let last ← require "end" d.last
    let tag ← require "type" d.tag
    return ⟨start, last, tag, d.data.getD .null⟩

/-- The record of a graph, whose blocks are read by `block`. Of this form are `WireControlFlowGraph`
and `ControlFlowGraph`. -/
def graphRecord {α : Type} (name : String) (block : Node → Except Fault α) :
    Record Node (Option (List α)) (List α) where
  name := name
  fields := [
    { name := "blocks"
      read := Read.list block
      put := fun x _ => some x
      get := id }]
  blank := none
  build := require "blocks"

/-- `WireContract`: a contract whose blocks still have untyped data. -/
structure RawContract where
  functions : Option (List Function) := none
  storage : Option (List StorageRecord) := none
  disassembled : Option (List Instruction) := none
  basicBlocks : Option (List BasicBlock) := none
  blocks : Option (List RawBlock) := none

/-- What has been read of a contract. -/
structure ContractDraft where
  functions : Option (Option (List Function)) := none
  storage : Option (Option (List StorageRecord)) := none
  disassembled : Option (Option (List Instruction)) := none
  basicBlocks : Option (Option (List BasicBlock)) := none
  blocks : Option (Option (List RawBlock)) := none

/-- The record `WireContract`. A block's data starts inside four open containers: the contract, the
graph, the list of blocks and the block. -/
def contractRecord : Record Node ContractDraft RawContract where
  name := "WireContract"
  fields := [
    { name := "functions"
      optional := true
      read := Read.optional (Read.list functionRecord.read)
      put := fun x d => { d with functions := some x }
      get := (·.functions) },
    { name := "storage"
      optional := true
      read := Read.optional (Read.list storageRecord.read)
      put := fun x d => { d with storage := some x }
      get := (·.storage) },
    { name := "disassembled"
      optional := true
      read := Read.optional (Read.list instruction)
      put := fun x d => { d with disassembled := some x }
      get := (·.disassembled) },
    { name := "basic_blocks"
      otherName := some "basicBlocks"
      optional := true
      read := Read.optional (Read.list basicBlock)
      put := fun x d => { d with basicBlocks := some x }
      get := (·.basicBlocks) },
    { name := "control_flow_graph"
      otherName := some "controlFlowGraph"
      optional := true
      read := Read.optional (graphRecord "WireControlFlowGraph" (rawBlockRecord 4).read).read
      put := fun x d => { d with blocks := some x }
      get := (·.blocks) }]
  blank := {}
  build := fun d => .ok {
    functions := d.functions.getD none
    storage := d.storage.getD none
    disassembled := d.disassembled.getD none
    basicBlocks := d.basicBlocks.getD none
    blocks := d.blocks.getD none }

end Wire

end EngineHost
