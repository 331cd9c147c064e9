import EngineHost.Contract.Wire
import EngineHost.Json.Scan

/-!
# Decoding contracts

The contract, or the single block, that a JSON text describes. A text is read to its end before the
data of the blocks is looked at, block by block.
-/

namespace EngineHost

open Json

/-- Why a text does not fit the schema of contracts, `DecodeError.Schema`. -/
inductive SchemaFault where
  /-- The text is not the JSON that is expected. -/
  | text (fault : Fault)
  /-- The data of the block at `start` is not what its tag announces. -/
  | data (start : UInt64) (tag : String) (fault : Fault)
  /-- A fault given in words. -/
  | other (reason : String)

/-- `DecodeError`: why a text describes no contract. -/
inductive DecodeFault where
  /-- A block has a tag outside the closed set of tags. -/
  | unknownTag (tag : String) (start : Option UInt64)
  /-- The text does not fit the schema. -/
  | schema (fault : SchemaFault)

/-- The wording of a schema fault. -/
def SchemaFault.message : SchemaFault → String
  | .text fault => fault.message
  | .data start tag fault =>
    "block " ++ Decimal.text start.toNat ++ " (" ++ tag ++ "): " ++ fault.message
  | .other reason => reason

/-- The kind of a fault, as it stands in front of its wording. -/
def DecodeFault.kind : DecodeFault → String
  | .unknownTag .. => "UNKNOWN_VARIANT"
  | .schema _ => "SCHEMA_ERROR"

/-- The wording of a fault. -/
def DecodeFault.message (f : DecodeFault) : String :=
  f.kind ++ ": " ++
    match f with
    | .unknownTag tag start =>
      "unknown block type '" ++ tag ++ "'" ++
        match start with
        | some s => " at block " ++ Decimal.text s.toNat
        | none => ""
    | .schema fault => fault.message

/-- `Block.try_from`: the block of a block with untyped data. -/
def Block.ofRaw (raw : Wire.RawBlock) : Except DecodeFault Block :=
  match Wire.exitReader? raw.tag with
  | none => .error (.unknownTag raw.tag (some raw.start))
  | some read =>
    match read raw.data with
    | .error fault => .error (.schema (.data raw.start raw.tag fault))
    | .ok exit => .ok ⟨raw.start, raw.last, exit⟩

/-- The blocks of blocks with untyped data, up to the first fault. -/
def Block.ofRaws : List Wire.RawBlock → Except DecodeFault (List Block)
  | [] => .ok []
  | raw :: rest =>
    match Block.ofRaw raw with
    | .error fault => .error fault
    | .ok block => (Block.ofRaws rest).map (block :: ·)

/-- `Contract.try_from`: the contract of a contract with untyped data. -/
def Contract.ofRaw (raw : Wire.RawContract) : Except DecodeFault Contract :=
  match raw.blocks with
  | none => .ok ⟨raw.functions, raw.storage, raw.disassembled, raw.basicBlocks, none⟩
  | some raws =>
    (Block.ofRaws raws).map fun blocks =>
      ⟨raw.functions, raw.storage, raw.disassembled, raw.basicBlocks, some ⟨blocks⟩⟩

/-- Reads a whole text: nothing may follow the value. -/
def readWhole {α : Type} (read : Node → Except Fault α) (payload : Bytes) : Except Fault α :=
  let document := Document.ofBytes payload
  match read document.root with
  | .error f => .error f
  | .ok a => if document.trailing then .error .trailingCharacters else .ok a

/-- Reads a whole text and then converts what was read. -/
def decodeWhole {α β : Type} (read : Node → Except Fault α) (convert : α → Except DecodeFault β)
    (payload : Bytes) : Except DecodeFault β :=
  match readWhole read payload with
  | .error f => .error (.schema (.text f))
  | .ok raw => convert raw

/-- `decode_contract`: the contract that a payload describes. -/
def Contract.decode (payload : Bytes) : Except DecodeFault Contract :=
  decodeWhole Wire.contractRecord.read Contract.ofRaw payload

/-- `decode_block`: the block that a payload describes. -/
def Block.decode (payload : Bytes) : Except DecodeFault Block :=
  decodeWhole (Wire.rawBlockRecord 1).read Block.ofRaw payload

namespace Wire

/-- A reader whose result is converted on the spot. -/
def converted {α β : Type} (read : Node → Except Fault α) (convert : α → Except DecodeFault β)
    (node : Node) : Except Fault β :=
  match read node with
  | .error f => .error f
  | .ok raw =>
    match convert raw with
    | .error fault => .error (.refused fault.message)
    | .ok b => .ok b

/-- A block, its data read as soon as the block has been read. -/
def block (depth : Nat) : Node → Except Fault Block :=
  converted (rawBlockRecord depth).read Block.ofRaw

/-- A contract, the data of its blocks read as soon as the contract has been read. -/
def contract : Node → Except Fault Contract := converted contractRecord.read Contract.ofRaw

/-- A graph, the data of each block read as soon as the block has been read. -/
def graph (node : Node) : Except Fault Graph :=
  ((graphRecord "ControlFlowGraph" (block 3)).read node).map Graph.mk

end Wire

end EngineHost
