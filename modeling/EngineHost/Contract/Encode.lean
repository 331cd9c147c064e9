import EngineHost.Contract.Basic
import EngineHost.Json.Printer

/-!
# Encoding contracts

Contracts and their parts as JSON values, with fields in a fixed order and absent parts left out.
-/

namespace EngineHost

open Json

/-- The members of an object that are there. -/
def presentMembers (members : List (String × Option Value)) : List (String × Value) :=
  members.filterMap fun (key, value) => value.map (key, ·)

/-- A word as a JSON string. -/
def Word.toJson {width : Nat} (w : Word width) : Value := .string w.text

/-- A mutability as a JSON string. -/
def Mutability.toJson (m : Mutability) : Value := .string m.name

/-- A function as a JSON object. -/
def Function.toJson (f : Function) : Value :=
  .object (presentMembers [
    ("selector", some f.selector.toJson),
    ("bytecode_offset", some (.natural f.bytecodeOffset)),
    ("arguments", f.arguments.map .string),
    ("state_mutability", f.mutability.map (·.toJson))])

/-- A storage record as a JSON object. -/
def StorageRecord.toJson (r : StorageRecord) : Value :=
  .object [
    ("slot", r.slot.toJson),
    ("offset", .number (.integer r.offset.val)),
    ("type", .string r.type),
    ("reads", .array (r.reads.map (·.toJson))),
    ("writes", .array (r.writes.map (·.toJson)))]

/-- An instruction as a JSON array. -/
def Instruction.toJson (i : Instruction) : Value := .array [.natural i.offset, .string i.opcode]

/-- A basic block as a JSON array. -/
def BasicBlock.toJson (b : BasicBlock) : Value := .array [.natural b.first, .natural b.last]

/-- A candidate of a computed jump as a JSON object. -/
def DynamicJump.toJson (j : DynamicJump) : Value :=
  .object [
    ("path", .array (j.path.map .natural)),
    ("to", match j.target with | some target => .natural target | none => .null)]

/-- The data of a block as a JSON object. -/
def Exit.data : Exit → Value
  | .terminate success => .object [("success", .boolean success)]
  | .jump target => .object [("to", .natural target)]
  | .jumpIf trueTo falseTo =>
    .object [("true_to", .natural trueTo), ("false_to", .natural falseTo)]
  | .dynamicJump targets => .object [("to", .array (targets.map (·.toJson)))]
  | .dynamicJumpIf trueTo falseTo =>
    .object [("true_to", .array (trueTo.map (·.toJson))), ("false_to", .natural falseTo)]

/-- A block as a JSON object. -/
def Block.toJson (b : Block) : Value :=
  .object [
    ("start", .natural b.start),
    ("end", .natural b.last),
    ("type", .string b.exit.tag),
    ("data", b.exit.data)]

/-- A graph as a JSON object. -/
def Graph.toJson (g : Graph) : Value := .object [("blocks", .array (g.blocks.map (·.toJson)))]

/-- A contract as a JSON object. -/
def Contract.toJson (c : Contract) : Value :=
  .object (presentMembers [
    ("functions", c.functions.map fun fs => .array (fs.map (·.toJson))),
    ("storage", c.storage.map fun rs => .array (rs.map (·.toJson))),
    ("disassembled", c.disassembled.map fun is => .array (is.map (·.toJson))),
    ("basic_blocks", c.basicBlocks.map fun bs => .array (bs.map (·.toJson))),
    ("control_flow_graph", c.controlFlowGraph.map (·.toJson))])

/-- `encode_contract`: the text of a contract. -/
def Contract.encode (c : Contract) : Bytes := c.toJson.compact

/-- `encode_block`: the text of a block. -/
def Block.encode (b : Block) : Bytes := b.toJson.compact

end EngineHost
