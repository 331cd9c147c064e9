import EngineHost.Word

/-!
# Contracts

What an analysis finds out about a contract's code: its public functions, its storage layout, its
instructions, its basic blocks and its control flow graph. Each part is there only if it was asked
for.
-/

namespace EngineHost

/-- `StateMutability`: whether a function may read or change state, or receive value. -/
inductive Mutability where
  | pure
  | view
  | payable
  | nonpayable
  deriving DecidableEq, Repr

/-- A public function. -/
structure Function where
  /-- The selector by which callers name it. -/
  selector : Selector
  /-- Where its body starts in the code. -/
  bytecodeOffset : UInt64
  /-- The types of its arguments, separated by commas. -/
  arguments : Option String := none
  /-- Its mutability. -/
  mutability : Option Mutability := none
  deriving DecidableEq, Repr

/-- A variable in the storage layout. -/
structure StorageRecord where
  /-- The slot that holds it. -/
  slot : Slot
  /-- The byte of the slot where it starts. -/
  offset : Fin 32
  /-- Its type. -/
  type : String
  /-- The functions that read it. -/
  reads : List Selector := []
  /-- The functions that write it. -/
  writes : List Selector := []
  deriving DecidableEq, Repr

/-- A disassembled instruction. -/
structure Instruction where
  /-- Where it stands in the code. -/
  offset : UInt64
  /-- Its name and operands. -/
  opcode : String
  deriving DecidableEq, Repr

/-- A basic block by the offsets of its first and its last instruction. -/
structure BasicBlock where
  /-- The offset of the first instruction. -/
  first : UInt64
  /-- The offset of the last instruction. -/
  last : UInt64
  deriving DecidableEq, Repr

/-- A destination that a computed jump may have, and the blocks that lead to it. -/
structure DynamicJump where
  /-- The starts of the blocks on the way. -/
  path : List UInt64
  /-- The destination, if it could be found. -/
  target : Option UInt64 := none
  deriving DecidableEq, Repr

/-- `BlockType`: how control leaves a block. -/
inductive Exit where
  /-- The run ends. -/
  | terminate (success : Bool)
  /-- A jump to a known place. -/
  | jump (target : UInt64)
  /-- A jump to one of two known places. -/
  | jumpIf (trueTo falseTo : UInt64)
  /-- A jump to a computed place. -/
  | dynamicJump (targets : List DynamicJump)
  /-- A jump to a computed place, or on to a known one. -/
  | dynamicJumpIf (trueTo : List DynamicJump) (falseTo : UInt64)
  deriving DecidableEq, Repr

/-- A block of the control flow graph. -/
structure Block where
  /-- The offset of the first instruction. -/
  start : UInt64
  /-- The offset of the last instruction. -/
  last : UInt64
  /-- How control leaves it. -/
  exit : Exit
  deriving DecidableEq, Repr

/-- A control flow graph. -/
structure Graph where
  /-- The blocks, as they were reported. -/
  blocks : List Block
  deriving DecidableEq, Repr

/-- What is known about a contract. -/
structure Contract where
  /-- The public functions. -/
  functions : Option (List Function) := none
  /-- The storage layout. -/
  storage : Option (List StorageRecord) := none
  /-- The instructions. -/
  disassembled : Option (List Instruction) := none
  /-- The basic blocks. -/
  basicBlocks : Option (List BasicBlock) := none
  /-- The control flow graph. -/
  controlFlowGraph : Option Graph := none
  deriving DecidableEq, Repr

/-- `StateMutability.as_str`: the name of a mutability. -/
def Mutability.name : Mutability → String
  | .pure => "pure"
  | .view => "view"
  | .payable => "payable"
  | .nonpayable => "nonpayable"

/-- All mutabilities, in the order in which messages list them. -/
def Mutability.all : List Mutability := [.pure, .view, .payable, .nonpayable]

/-- The mutability of this name. -/
def Mutability.ofName? (name : String) : Option Mutability := all.find? (·.name = name)

/-- `BlockType.tag`: the tag that names the way control leaves a block. -/
def Exit.tag : Exit → String
  | .terminate _ => "Terminate"
  | .jump _ => "Jump"
  | .jumpIf _ _ => "Jumpi"
  | .dynamicJump _ => "DynamicJump"
  | .dynamicJumpIf _ _ => "DynamicJumpi"

/-- `Contract.function`: the first function with this selector. -/
def Contract.function? (c : Contract) (selector : Selector) : Option Function :=
  c.functions.bind fun fs => fs.find? (·.selector = selector)

end EngineHost
