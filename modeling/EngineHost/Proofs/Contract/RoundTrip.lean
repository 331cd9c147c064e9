import EngineHost.Contract.Encode
import EngineHost.Proofs.Contract.Reading
import EngineHost.Proofs.Json.Printing

/-!
# Decoding undoes encoding

The encoder writes one of the spellings of a contract, so the decoder reads the contract back. Each
part of a contract is shown to be printed in its form; the records leave out what is missing and
name every field by its first name.
-/

namespace EngineHost

open Json

/-! ### Words -/

/-- A selector is printed in its form. -/
theorem prints_selector (w : Selector) : Prints w.toJson (Selector.form w) := by
  obtain ⟨node, hwritten, hform⟩ := prints_text w.text
  exact ⟨node, hwritten, w.text, w.named_text (by decide) false, hform⟩

/-- A slot is printed in its form. -/
theorem prints_slot (w : Slot) : Prints w.toJson (Slot.form w) := by
  obtain ⟨node, hwritten, hform⟩ := prints_text w.text
  exact ⟨node, hwritten, w.text, w.named_text (by decide) true, hform⟩

/-- A mutability is printed in its form. -/
theorem prints_mutability (m : Mutability) : Prints m.toJson (Mutability.form m) :=
  prints_text m.name

/-! ### Records -/

/-- A member that may be missing is left out then. -/
theorem Json.Listed.optional {α : Type} {form : Form Node α} {toJson : α → Value}
    (hprints : ∀ a, Prints (toJson a) (form a)) (a : Option α) {names : List String} {name : String}
    (hname : name ∈ names) {parts : List (RecordPart Node)} {rest : List (String × Option Value)}
    (hrest : Listed parts (presentMembers rest)) :
    Listed ({ names := names, form := Form.option form a, omissible := a = none } :: parts)
      (presentMembers ((name, a.map toJson) :: rest)) := by
  cases a with
  | none => exact .left rfl hrest
  | some a => exact .given hname (hprints a) hrest

/-- A function is printed in its form. -/
theorem prints_function (f : Function) : Prints f.toJson (Function.form f) := by
  refine prints_record ?_ (by simp [NamesApart, Function.parts]) WellFormed
  refine .given (by simp) (prints_selector f.selector) ?_
  refine .given (by simp) (prints_offset f.bytecodeOffset) ?_
  refine .optional prints_text f.arguments (by simp) ?_
  refine .optional prints_mutability f.mutability (by simp) ?_
  exact .nil

/-- A storage record is printed in its form. -/
theorem prints_storage (r : StorageRecord) : Prints r.toJson (StorageRecord.form r) := by
  have hoffset : r.offset.val < 0x10000000000000000 := by omega
  refine prints_record ?_ (by simp [NamesApart, StorageRecord.parts]) WellFormed
  refine .given (by simp) (prints_slot r.slot) ?_
  refine .given (by simp) (prints_natural hoffset) ?_
  refine .given (by simp) (prints_text r.type) ?_
  refine .given (by simp) (prints_list prints_selector r.reads) ?_
  refine .given (by simp) (prints_list prints_selector r.writes) ?_
  exact .nil

/-- An instruction is printed in its form. -/
theorem prints_instruction (i : Instruction) : Prints i.toJson (Instruction.form i) :=
  prints_pair (prints_offset i.offset) (prints_text i.opcode)

/-- A basic block is printed in its form. -/
theorem prints_basicBlock (b : BasicBlock) : Prints b.toJson (BasicBlock.form b) :=
  prints_pair (prints_offset b.first) (prints_offset b.last)

/-- A candidate is printed in its form. -/
theorem prints_dynamicJump (j : DynamicJump) : Prints j.toJson (DynamicJump.form j) := by
  refine prints_record ?_ (by simp [NamesApart, DynamicJump.parts]) _
  refine .given (by simp) (prints_list prints_offset j.path) ?_
  refine .given (by simp) ?_ .nil
  cases j.target with
  | none => exact prints_null
  | some target => exact prints_offset target

/-- The data of a block is printed in its form. -/
theorem prints_exit (exit : Exit) : Prints exit.data (Exit.form exit) := by
  have hnames : NamesApart (exit.parts : List (RecordPart Node)) := by
    cases exit <;> simp [NamesApart, Exit.parts]
  cases exit with
  | terminate success =>
    exact prints_record (.given (by simp) (prints_boolean success) .nil) hnames _
  | jump target => exact prints_record (.given (by simp) (prints_offset target) .nil) hnames _
  | jumpIf trueTo falseTo =>
    refine prints_record ?_ hnames _
    exact .given (by simp) (prints_offset trueTo) (.given (by simp) (prints_offset falseTo) .nil)
  | dynamicJump targets =>
    exact prints_record (.given (by simp) (prints_list prints_dynamicJump targets) .nil) hnames _
  | dynamicJumpIf trueTo falseTo =>
    refine prints_record ?_ hnames _
    exact .given (by simp) (prints_list prints_dynamicJump trueTo)
      (.given (by simp) (prints_offset falseTo) .nil)

/-- A block is printed in its form. -/
theorem prints_block (b : Block) : Prints b.toJson (Block.form b) := by
  refine prints_record ?_ (by simp [NamesApart, Block.parts]) WellFormed
  refine .given (by simp) (prints_offset b.start) ?_
  refine .given (by simp) (prints_offset b.last) ?_
  refine .given (by simp) (prints_text b.exit.tag) ?_
  refine .given (by simp) (prints_exit b.exit) ?_
  exact .nil

/-- A graph is printed in its form. -/
theorem prints_graph (g : Graph) : Prints g.toJson (Graph.form g) := by
  refine prints_record ?_ (by simp [NamesApart, Graph.parts]) WellFormed
  exact .given (by simp) (prints_list prints_block g.blocks) .nil

/-- A contract is printed in its form. -/
theorem prints_contract (c : Contract) : Prints c.toJson (Contract.form c) := by
  refine prints_record ?_ (by simp [NamesApart, Contract.parts]) WellFormed
  refine .optional (prints_list prints_function) c.functions (by simp) ?_
  refine .optional (prints_list prints_storage) c.storage (by simp) ?_
  refine .optional (prints_list prints_instruction) c.disassembled (by simp) ?_
  refine .optional (prints_list prints_basicBlock) c.basicBlocks (by simp) ?_
  refine .optional prints_graph c.controlFlowGraph (by simp) ?_
  exact .nil

/-- A contract is decoded from the text that it is encoded as. -/
theorem Contract.decode_printed (c : Contract) : Contract.decode c.encode = .ok c := by
  obtain ⟨root, hwritten, hform⟩ := prints_contract c
  obtain ⟨raw, hread, hofRaw⟩ := rawContract_of_form hform
  exact decodeWhole_of_written (documentWritten_of_written hwritten) hread hofRaw

/-- A block is decoded from the text that it is encoded as. -/
theorem Block.decode_printed (b : Block) : Block.decode b.encode = .ok b := by
  obtain ⟨root, hwritten, hform⟩ := prints_block b
  obtain ⟨raw, hread, hofRaw⟩ := rawBlock_of_form (show 1 + 4 ≤ nestingLimit by decide) hform
  exact decodeWhole_of_written (documentWritten_of_written hwritten) hread hofRaw

/-- Decoding undoes encoding, of contracts and of single blocks. -/
theorem decode_encode : (∀ c : Contract, Contract.decode c.encode = .ok c) ∧
    ∀ b : Block, Block.decode b.encode = .ok b :=
  ⟨Contract.decode_printed, Block.decode_printed⟩

end EngineHost
