import EngineHost.Proofs.Contract.Places

/-!
# The offsets of a contract

Where a contract has offsets: in its functions, instructions and basic blocks, and in the blocks of
its control flow graph, of which the exits are written as untyped data. For each of them this file
gives the path to it, the offset itself, and the contract with another offset there, and shows that
the readers come to it along its path.
-/

namespace EngineHost

open Json

/-! ### Exits -/

namespace Exit

/-- Another target of a jump. -/
def mapTarget (f : UInt64 → UInt64) : Exit → Exit
  | .jump target => .jump (f target)
  | exit => exit

/-- Another place to go to if the condition of a jump holds. -/
def mapTrueTo (f : UInt64 → UInt64) : Exit → Exit
  | .jumpIf trueTo falseTo => .jumpIf (f trueTo) falseTo
  | exit => exit

/-- Another place to go to if the condition of a jump does not hold. -/
def mapFalseTo (f : UInt64 → UInt64) : Exit → Exit
  | .jumpIf trueTo falseTo => .jumpIf trueTo (f falseTo)
  | .dynamicJumpIf trueTo falseTo => .dynamicJumpIf trueTo (f falseTo)
  | exit => exit

/-- Other candidates of a computed jump. -/
def mapTargets (f : List DynamicJump → List DynamicJump) : Exit → Exit
  | .dynamicJump targets => .dynamicJump (f targets)
  | exit => exit

/-- Other candidates of a computed jump that has a condition. -/
def mapTrueTargets (f : List DynamicJump → List DynamicJump) : Exit → Exit
  | .dynamicJumpIf trueTo falseTo => .dynamicJumpIf (f trueTo) falseTo
  | exit => exit

end Exit

/-- An offset of a candidate of a computed jump: its target, or a block on the way. -/
inductive CandidatePlace where
  | target
  | onPath (index : Nat)

/-- An offset in the way control leaves a block. -/
inductive ExitPlace where
  | target
  | trueTo
  | falseTo
  | candidate (index : Nat) (place : CandidatePlace)
  | trueCandidate (index : Nat) (place : CandidatePlace)

/-- An offset of a block. -/
inductive BlockPlace where
  | start
  | last
  | exit (place : ExitPlace)

/-- An offset of a contract. -/
inductive OffsetPlace where
  | function (index : Nat)
  | instruction (index : Nat)
  | first (index : Nat)
  | last (index : Nat)
  | block (index : Nat) (place : BlockPlace)

section Items

variable {α : Type}

/-- An offset of an item of a list that may be missing. -/
def itemOffset? (get? : α → Option UInt64) (index : Nat) (list : Option (List α)) :
    Option UInt64 :=
  list.bind fun as => as[index]?.bind get?

/-- A list that may be missing, with an item changed. -/
def modifyItem (g : α → α) (index : Nat) (list : Option (List α)) : Option (List α) :=
  list.map fun as => as.modify index g

/-- After an item of a list has been changed, its offset is the changed one. -/
theorem getElem?_modify_bind {get? : α → Option UInt64} {g : α → α} {f : UInt64 → UInt64}
    (hget : ∀ a, get? (g a) = (get? a).map f) (index : Nat) (as : List α) :
    (as.modify index g)[index]?.bind get? = (as[index]?.bind get?).map f := by
  rw [List.getElem?_modify_eq]
  cases as[index]? with
  | none => rfl
  | some a => exact hget a

/-- After an item of a list that may be missing has been changed, its offset is the changed one. -/
theorem itemOffset?_modifyItem {get? : α → Option UInt64} {g : α → α} {f : UInt64 → UInt64}
    (hget : ∀ a, get? (g a) = (get? a).map f) (index : Nat) (list : Option (List α)) :
    itemOffset? get? index (modifyItem g index list) = (itemOffset? get? index list).map f := by
  cases list with
  | none => rfl
  | some as => exact getElem?_modify_bind hget index as

end Items

namespace CandidatePlace

/-- The path to the offset, from the inside out. -/
def path : CandidatePlace → List Step
  | .target => [.field ["to"] 1]
  | .onPath index => [.item index, .field ["path"] 0]

/-- The offset. -/
def get? : CandidatePlace → DynamicJump → Option UInt64
  | .target, j => j.target
  | .onPath index, j => j.path[index]?

/-- The candidate with the offset changed. -/
def modify (f : UInt64 → UInt64) : CandidatePlace → DynamicJump → DynamicJump
  | .target, j => { j with target := j.target.map f }
  | .onPath index, j => { j with path := j.path.modify index f }

/-- After an offset of a candidate has been changed, it is the changed one. -/
theorem get?_modify (place : CandidatePlace) (f : UInt64 → UInt64) (j : DynamicJump) :
    place.get? (place.modify f j) = (place.get? j).map f := by
  cases place with
  | target => rfl
  | onPath index => exact List.getElem?_modify_eq f index j.path

end CandidatePlace

namespace ExitPlace

/-- The path to the offset inside the data of a block, from the inside out. -/
def path : ExitPlace → List Step
  | .target => [.field ["to"] 0]
  | .trueTo => [.field ["true_to"] 0]
  | .falseTo => [.field ["false_to"] 1]
  | .candidate index place => place.path ++ [.item index, .field ["to"] 0]
  | .trueCandidate index place => place.path ++ [.item index, .field ["true_to"] 0]

/-- The offset. -/
def get? : ExitPlace → Exit → Option UInt64
  | .target, .jump n => some n
  | .trueTo, .jumpIf n _ => some n
  | .falseTo, .jumpIf _ n => some n
  | .falseTo, .dynamicJumpIf _ n => some n
  | .candidate index place, .dynamicJump js => js[index]?.bind place.get?
  | .trueCandidate index place, .dynamicJumpIf js _ => js[index]?.bind place.get?
  | _, _ => none

/-- The exit with the offset changed. -/
def modify (f : UInt64 → UInt64) : ExitPlace → Exit → Exit
  | .target => Exit.mapTarget f
  | .trueTo => Exit.mapTrueTo f
  | .falseTo => Exit.mapFalseTo f
  | .candidate index place => Exit.mapTargets fun js => js.modify index (place.modify f)
  | .trueCandidate index place => Exit.mapTrueTargets fun js => js.modify index (place.modify f)

/-- After an offset in the data of a block has been changed, it is the changed one. -/
theorem get?_modify (place : ExitPlace) (f : UInt64 → UInt64) (exit : Exit) :
    place.get? (place.modify f exit) = (place.get? exit).map f := by
  cases place with
  | target => cases exit <;> rfl
  | trueTo => cases exit <;> rfl
  | falseTo => cases exit <;> rfl
  | candidate index place =>
    cases exit with
    | dynamicJump targets =>
      exact getElem?_modify_bind (fun j => place.get?_modify f j) index targets
    | terminate | jump | jumpIf | dynamicJumpIf => rfl
  | trueCandidate index place =>
    cases exit with
    | dynamicJumpIf trueTo falseTo =>
      exact getElem?_modify_bind (fun j => place.get?_modify f j) index trueTo
    | terminate | jump | jumpIf | dynamicJump => rfl

end ExitPlace

namespace BlockPlace

/-- The path to the offset, from the inside out. -/
def path : BlockPlace → List Step
  | .start => [.field ["start"] 0]
  | .last => [.field ["end"] 1]
  | .exit place => place.path ++ [.field ["data"] 3]

/-- The offset. -/
def get? : BlockPlace → Block → Option UInt64
  | .start, b => some b.start
  | .last, b => some b.last
  | .exit place, b => place.get? b.exit

/-- The block with the offset changed. -/
def modify (f : UInt64 → UInt64) : BlockPlace → Block → Block
  | .start, b => { b with start := f b.start }
  | .last, b => { b with last := f b.last }
  | .exit place, b => { b with exit := place.modify f b.exit }

/-- After an offset of a block has been changed, it is the changed one. -/
theorem get?_modify (place : BlockPlace) (f : UInt64 → UInt64) (b : Block) :
    place.get? (place.modify f b) = (place.get? b).map f := by
  cases place with
  | start => rfl
  | last => rfl
  | exit place => exact place.get?_modify f b.exit

end BlockPlace

namespace OffsetPlace

/-- The path to the offset, from the inside out. -/
def path : OffsetPlace → List Step
  | .function index => .field ["bytecode_offset", "bytecodeOffset"] 1 ::
    RecordPlace.path (.function index)
  | .instruction index => [.item 0, .item index, .field ["disassembled"] 2]
  | .first index => [.item 0, .item index, .field ["basic_blocks", "basicBlocks"] 3]
  | .last index => [.item 1, .item index, .field ["basic_blocks", "basicBlocks"] 3]
  | .block index place => place.path ++ RecordPlace.path (.block index)

/-- The offset. -/
def get? : OffsetPlace → Contract → Option UInt64
  | .function index, c => itemOffset? (fun fn => some fn.bytecodeOffset) index c.functions
  | .instruction index, c => itemOffset? (fun i => some i.offset) index c.disassembled
  | .first index, c => itemOffset? (fun b => some b.first) index c.basicBlocks
  | .last index, c => itemOffset? (fun b => some b.last) index c.basicBlocks
  | .block index place, c => itemOffset? place.get? index (c.controlFlowGraph.map Graph.blocks)

/-- The contract with the offset changed. -/
def modify (f : UInt64 → UInt64) : OffsetPlace → Contract → Contract
  | .function index, c => { c with
      functions := modifyItem (fun fn => { fn with bytecodeOffset := f fn.bytecodeOffset }) index
        c.functions }
  | .instruction index, c => { c with
      disassembled := modifyItem (fun i => { i with offset := f i.offset }) index c.disassembled }
  | .first index, c => { c with
      basicBlocks := modifyItem (fun b => { b with first := f b.first }) index c.basicBlocks }
  | .last index, c => { c with
      basicBlocks := modifyItem (fun b => { b with last := f b.last }) index c.basicBlocks }
  | .block index place, c => { c with
      controlFlowGraph := c.controlFlowGraph.map fun g =>
        { g with blocks := g.blocks.modify index (place.modify f) } }

/-- After an offset of a contract has been changed, it is the changed one. -/
theorem get?_modify (place : OffsetPlace) (f : UInt64 → UInt64) (c : Contract) :
    place.get? (place.modify f c) = (place.get? c).map f := by
  cases place with
  | function index => exact itemOffset?_modifyItem (by intro _; rfl) index c.functions
  | instruction index => exact itemOffset?_modifyItem (by intro _; rfl) index c.disassembled
  | first index => exact itemOffset?_modifyItem (by intro _; rfl) index c.basicBlocks
  | last index => exact itemOffset?_modifyItem (by intro _; rfl) index c.basicBlocks
  | block index place =>
    have hlaw := itemOffset?_modifyItem (fun b => place.get?_modify f b) index
      (c.controlFlowGraph.map Graph.blocks)
    rw [get?, get?, ← hlaw, modify, modifyItem, Option.map_map, Option.map_map]
    rfl

end OffsetPlace

/-! ### Fields that hold offsets -/

namespace Wire

/-- A function keeps the offset of its code, under either name. -/
theorem stores_bytecodeOffset :
    functionRecord.Stores ["bytecode_offset", "bytecodeOffset"] 1 Read.offset
      (fun x d => { d with bytecodeOffset := some x })
      fun f fn => { fn with bytecodeOffset := f fn.bytecodeOffset } := by
  refine functionRecord_laidOut.stores rfl rfl ?_
  rintro x ⟨_ | selector, offset, arguments, mutability⟩ a f hbuild <;> cases hbuild
  rfl

/-- A block keeps the offset of its first instruction. -/
theorem stores_start (depth : Nat) :
    (rawBlockRecord depth).Stores ["start"] 0 Read.offset
      (fun x d => { d with start := some x }) fun f b => { b with start := f b.start } := by
  refine (rawBlockRecord_laidOut depth).stores rfl rfl ?_
  rintro x ⟨start, _ | last, _ | tag, data⟩ a f hbuild <;> cases hbuild
  rfl

/-- A block keeps the offset of its last instruction. -/
theorem stores_last (depth : Nat) :
    (rawBlockRecord depth).Stores ["end"] 1 Read.offset
      (fun x d => { d with last := some x }) fun f b => { b with last := f b.last } := by
  refine (rawBlockRecord_laidOut depth).stores rfl rfl ?_
  rintro x ⟨_ | start, last, _ | tag, data⟩ a f hbuild <;> cases hbuild
  rfl

/-- A jump keeps its target. -/
theorem stores_jumpTarget :
    jumpRecord.Stores ["to"] 0 Read.offset (fun x _ => some x) Exit.mapTarget := by
  refine jumpRecord_laidOut.stores rfl rfl ?_
  rintro x d _ f ⟨⟩
  rfl

/-- Of two branches, the first is kept as it is read. -/
theorem stores_trueTo {α : Type} (name : String) (taken : Value → Except Fault α)
    {exit : α → UInt64 → Exit} {amend : (α → α) → Exit → Exit}
    (hamend : ∀ f x y, amend f (exit x y) = exit (f x) y) :
    (branchRecord name taken exit).Stores ["true_to"] 0 taken
      (fun x d => { d with trueTo := some x }) amend := by
  refine (branchRecord_laidOut name taken exit).stores rfl rfl ?_
  rintro x ⟨trueTo, _ | falseTo⟩ a f hbuild <;> cases hbuild
  exact congrArg Except.ok (hamend f x falseTo).symm

/-- Of two branches, the second is kept as an offset. -/
theorem stores_falseTo {α : Type} (name : String) (taken : Value → Except Fault α)
    {exit : α → UInt64 → Exit} (hamend : ∀ f x y, Exit.mapFalseTo f (exit x y) = exit x (f y)) :
    (branchRecord name taken exit).Stores ["false_to"] 1 Read.offset
      (fun x d => { d with falseTo := some x }) Exit.mapFalseTo := by
  refine (branchRecord_laidOut name taken exit).stores rfl rfl ?_
  rintro x ⟨_ | trueTo, falseTo⟩ a f hbuild <;> cases hbuild
  exact congrArg Except.ok (hamend f trueTo x).symm

/-- A computed jump keeps its candidates. -/
theorem stores_targets :
    dynamicJumpDataRecord.Stores ["to"] 0 (Read.list dynamicJumpRecord.read) (fun x _ => some x)
      Exit.mapTargets := by
  refine dynamicJumpDataRecord_laidOut.stores rfl rfl ?_
  rintro x d _ f ⟨⟩
  rfl

/-- A candidate keeps its path. -/
theorem stores_candidatePath :
    (dynamicJumpRecord : Record Value DynamicJumpDraft DynamicJump).Stores ["path"] 0
      (Read.list Read.offset) (fun x d => { d with path := some x })
      fun f j => { j with path := f j.path } := by
  refine dynamicJumpRecord_laidOut.stores rfl rfl ?_
  rintro x d _ f ⟨⟩
  rfl

/-- A candidate keeps its target, if it has one. -/
theorem stores_candidateTarget :
    (dynamicJumpRecord : Record Value DynamicJumpDraft DynamicJump).Stores ["to"] 1
      (Read.optional Read.offset) (fun x d => { d with target := some x })
      fun f j => { j with target := f j.target } := by
  refine dynamicJumpRecord_laidOut.stores rfl rfl ?_
  rintro x ⟨_ | path, target⟩ a f hbuild <;> cases hbuild
  rfl

/-! ### Readers that come to offsets -/

/-- The reader of contracts comes to the offset of every function. -/
theorem reaches_function (index : Nat) :
    Reaches contractRecord.read (OffsetPlace.path (.function index)) Read.offset fun f c =>
      { c with functions := modifyItem (fun fn =>
        { fn with bytecodeOffset := f fn.bytecodeOffset }) index c.functions } :=
  ((Reaches.field stores_functions).trans (Reaches.list _ index).optional).trans
    (Reaches.field stores_bytecodeOffset)

/-- The reader of contracts comes to the offset of every instruction. -/
theorem reaches_instruction (index : Nat) :
    Reaches contractRecord.read (OffsetPlace.path (.instruction index)) Read.offset fun f c =>
      { c with disassembled := modifyItem (fun i =>
        { i with offset := f i.offset }) index c.disassembled } :=
  ((Reaches.field stores_disassembled).trans (Reaches.list _ index).optional).trans
    ((Reaches.pairFirst "instruction" _ _).map fun _ _ => rfl)

/-- The reader of contracts comes to the first offset of every basic block. -/
theorem reaches_first (index : Nat) :
    Reaches contractRecord.read (OffsetPlace.path (.first index)) Read.offset fun f c =>
      { c with basicBlocks := modifyItem (fun b =>
        { b with first := f b.first }) index c.basicBlocks } :=
  ((Reaches.field stores_basicBlocks).trans (Reaches.list _ index).optional).trans
    ((Reaches.pairFirst "basic block" _ _).map fun _ _ => rfl)

/-- The reader of contracts comes to the last offset of every basic block. -/
theorem reaches_last (index : Nat) :
    Reaches contractRecord.read (OffsetPlace.path (.last index)) Read.offset fun f c =>
      { c with basicBlocks := modifyItem (fun b =>
        { b with last := f b.last }) index c.basicBlocks } :=
  ((Reaches.field stores_basicBlocks).trans (Reaches.list _ index).optional).trans
    ((Reaches.pairSecond "basic block" _ _).map fun _ _ => rfl)

/-- The reader of contracts comes to every block of the graph. -/
theorem reaches_block (index : Nat) :
    Reaches contractRecord.read (RecordPlace.path (.block index)) (rawBlockRecord 4).read fun f c =>
      { c with blocks := modifyItem f index c.blocks } :=
  ((Reaches.field stores_controlFlowGraph).trans (Reaches.refl _).optional).trans
    ((Reaches.field (stores_blocks _ _)).trans (Reaches.list _ index))

/-- The reader of candidates comes to every offset of a candidate. -/
theorem reaches_candidate (place : CandidatePlace) :
    Reaches (dynamicJumpRecord : Record Value DynamicJumpDraft DynamicJump).read place.path
      Read.offset fun f => place.modify f := by
  cases place with
  | target => exact (Reaches.field stores_candidateTarget).trans (Reaches.refl _).optional
  | onPath index => exact (Reaches.field stores_candidatePath).trans (Reaches.list _ index)

/-- The reader that a tag announces returns exits with that tag. -/
theorem tag_of_exitReader? {tag : String} {read : Value → Except Fault Exit} {v : Value}
    {exit : Exit} (hreader : exitReader? tag = some read) (hread : read v = .ok exit) :
    exit.tag = tag := by
  unfold exitReader? at hreader
  split_ifs at hreader with hterminate hjump hjumpIf hdynamic hdynamicIf
  all_goals
    subst tag
    obtain rfl := Option.some.inj hreader
    obtain ⟨draft, hbuild⟩ := Record.exists_build_of_read hread
  · cases draft <;> cases hbuild
    rfl
  · cases draft <;> cases hbuild
    rfl
  · obtain ⟨_ | trueTo, _ | falseTo⟩ := draft <;> cases hbuild
    rfl
  · cases draft <;> cases hbuild
    rfl
  · obtain ⟨_ | trueTo, _ | falseTo⟩ := draft <;> cases hbuild
    rfl

/-- The reader of a block's data comes to the offsets of the block's exit. -/
theorem reaches_exit (place : ExitPlace) {exit : Exit} {n : UInt64}
    (hplace : place.get? exit = some n) {read : Value → Except Fault Exit}
    (hread : exitReader? exit.tag = some read) :
    Reaches read place.path Read.offset fun f => place.modify f := by
  match place, exit, hplace with
  | .target, .jump _, _ =>
    obtain rfl : jumpRecord.read = read := by simpa [exitReader?, Exit.tag] using hread
    exact .field stores_jumpTarget
  | .trueTo, .jumpIf _ _, _ =>
    obtain rfl : jumpIfRecord.read = read := by simpa [exitReader?, Exit.tag] using hread
    exact .field (stores_trueTo _ _ fun _ _ _ => rfl)
  | .falseTo, .jumpIf _ _, _ =>
    obtain rfl : jumpIfRecord.read = read := by simpa [exitReader?, Exit.tag] using hread
    exact .field (stores_falseTo _ _ fun _ _ _ => rfl)
  | .falseTo, .dynamicJumpIf _ _, _ =>
    obtain rfl : dynamicJumpIfRecord.read = read := by simpa [exitReader?, Exit.tag] using hread
    exact .field (stores_falseTo _ _ fun _ _ _ => rfl)
  | .candidate index place, .dynamicJump _, _ =>
    obtain rfl : dynamicJumpDataRecord.read = read := by simpa [exitReader?, Exit.tag] using hread
    exact ((Reaches.field stores_targets).trans (Reaches.list _ index)).trans
      (reaches_candidate place)
  | .trueCandidate index place, .dynamicJumpIf _ _, _ =>
    obtain rfl : dynamicJumpIfRecord.read = read := by simpa [exitReader?, Exit.tag] using hread
    have htargets : dynamicJumpIfRecord.Stores ["true_to"] 0 (Read.list dynamicJumpRecord.read) _
        Exit.mapTrueTargets := stores_trueTo _ _ fun _ _ _ => rfl
    exact ((Reaches.field htargets).trans (Reaches.list _ index)).trans (reaches_candidate place)

end Wire

end EngineHost
