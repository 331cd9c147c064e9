import EngineHost.Contract.Basic
import EngineHost.Proofs.Json.Form
import EngineHost.Proofs.Json.Grammar

/-!
# Spellings of a contract

Which JSON texts write a contract. The members of a record come in any order, four of them under
either of two names, and what is missing may be left out or be `null`. Records may have members of
other names with any well-formed value, except inside the data of a block, which is laid out by the
same rules for nodes and for untyped values.
-/

namespace EngineHost

open Json

section Data

variable {ν : Type} [Source ν] [Shaped ν]

/-- A candidate of a computed jump. -/
def DynamicJump.parts (j : DynamicJump) : List (RecordPart ν) := [
  { names := ["path"], form := Form.list Form.offset j.path },
  { names := ["to"], form := Form.option Form.offset j.target, omissible := j.target = none }]

@[inherit_doc DynamicJump.parts]
def DynamicJump.form : Form ν DynamicJump := Form.record parts fun _ => False

/-- The data of a block. -/
def Exit.parts : Exit → List (RecordPart ν)
  | .terminate success => [{ names := ["success"], form := Form.boolean success }]
  | .jump target => [{ names := ["to"], form := Form.offset target }]
  | .jumpIf trueTo falseTo => [
    { names := ["true_to"], form := Form.offset trueTo },
    { names := ["false_to"], form := Form.offset falseTo }]
  | .dynamicJump targets => [{ names := ["to"], form := Form.list DynamicJump.form targets }]
  | .dynamicJumpIf trueTo falseTo => [
    { names := ["true_to"], form := Form.list DynamicJump.form trueTo },
    { names := ["false_to"], form := Form.offset falseTo }]

@[inherit_doc Exit.parts]
def Exit.form : Form ν Exit := Form.record parts fun _ => False

end Data

/-- A selector, as a text that gives it in full. -/
def Selector.form : Form Node Selector := fun w v => ∃ s, w.Named false s ∧ Form.text s v

/-- A slot, as a text that may leave out leading zeros. -/
def Slot.form : Form Node Slot := fun w v => ∃ s, w.Named true s ∧ Form.text s v

/-- A mutability, as its name. -/
def Mutability.form : Form Node Mutability := fun m v => Form.text m.name v

/-- A public function. -/
def Function.parts (f : Function) : List (RecordPart Node) := [
  { names := ["selector"], form := Selector.form f.selector },
  { names := ["bytecode_offset", "bytecodeOffset"], form := Form.offset f.bytecodeOffset },
  { names := ["arguments"]
    form := Form.option Form.text f.arguments
    omissible := f.arguments = none },
  { names := ["state_mutability", "stateMutability"]
    form := Form.option Mutability.form f.mutability
    omissible := f.mutability = none }]

@[inherit_doc Function.parts]
def Function.form : Form Node Function := Form.record parts WellFormed

/-- A variable in the storage layout. -/
def StorageRecord.parts (r : StorageRecord) : List (RecordPart Node) := [
  { names := ["slot"], form := Slot.form r.slot },
  { names := ["offset"], form := fun v => Shaped.Shows v (.natural r.offset.val) },
  { names := ["type"], form := Form.text r.type },
  { names := ["reads"], form := Form.list Selector.form r.reads, omissible := r.reads = [] },
  { names := ["writes"], form := Form.list Selector.form r.writes, omissible := r.writes = [] }]

@[inherit_doc StorageRecord.parts]
def StorageRecord.form : Form Node StorageRecord := Form.record parts WellFormed

/-- An instruction, as its offset and its text. -/
def Instruction.form : Form Node Instruction := fun i v =>
  Form.pair Form.offset Form.text (i.offset, i.opcode) v

/-- A basic block, as the offsets of its first and its last instruction. -/
def BasicBlock.form : Form Node BasicBlock := fun b v =>
  Form.pair Form.offset Form.offset (b.first, b.last) v

/-- A block of the control flow graph. -/
def Block.parts (b : Block) : List (RecordPart Node) := [
  { names := ["start"], form := Form.offset b.start },
  { names := ["end"], form := Form.offset b.last },
  { names := ["type"], form := Form.text b.exit.tag },
  { names := ["data"], form := Exit.form b.exit }]

@[inherit_doc Block.parts]
def Block.form : Form Node Block := Form.record parts WellFormed

/-- A control flow graph. -/
def Graph.parts (g : Graph) : List (RecordPart Node) := [
  { names := ["blocks"], form := Form.list Block.form g.blocks }]

@[inherit_doc Graph.parts]
def Graph.form : Form Node Graph := Form.record parts WellFormed

/-- A contract. -/
def Contract.parts (c : Contract) : List (RecordPart Node) := [
  { names := ["functions"]
    form := Form.option (Form.list Function.form) c.functions
    omissible := c.functions = none },
  { names := ["storage"]
    form := Form.option (Form.list StorageRecord.form) c.storage
    omissible := c.storage = none },
  { names := ["disassembled"]
    form := Form.option (Form.list Instruction.form) c.disassembled
    omissible := c.disassembled = none },
  { names := ["basic_blocks", "basicBlocks"]
    form := Form.option (Form.list BasicBlock.form) c.basicBlocks
    omissible := c.basicBlocks = none },
  { names := ["control_flow_graph", "controlFlowGraph"]
    form := Form.option Graph.form c.controlFlowGraph
    omissible := c.controlFlowGraph = none }]

@[inherit_doc Contract.parts]
def Contract.form : Form Node Contract := Form.record parts WellFormed

/-- The texts that write a contract. -/
def Contract.Spelled (c : Contract) (text : Bytes) : Prop :=
  ∃ root, DocumentWritten root text ∧ Contract.form c root

end EngineHost
