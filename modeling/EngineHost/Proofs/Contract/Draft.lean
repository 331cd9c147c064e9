import EngineHost.Contract.Wire
import EngineHost.Proofs.Json.Draft

/-!
# The drafts of a contract's records

In every record of a contract, no two fields share a name or a part of the draft.
-/

namespace EngineHost.Wire

open Json

/-- A contract is read into a draft with a part for each field. -/
theorem contractRecord_laidOut : contractRecord.LaidOut := by
  constructor <;> simp [contractRecord, Field.apart_iff, Field.names]

/-- A function is read into a draft with a part for each field. -/
theorem functionRecord_laidOut : functionRecord.LaidOut := by
  constructor <;> simp [functionRecord, Field.apart_iff, Field.names]

/-- A variable in the storage layout is read into a draft with a part for each field. -/
theorem storageRecord_laidOut : storageRecord.LaidOut := by
  constructor <;> simp [storageRecord, Field.apart_iff, Field.names]

/-- A graph is read into a draft that holds its blocks. -/
theorem graphRecord_laidOut {α : Type} (name : String) (block : Node → Except Fault α) :
    (graphRecord name block).LaidOut := by
  constructor <;> simp [graphRecord]

/-- A block is read into a draft with a part for each field. -/
theorem rawBlockRecord_laidOut (depth : Nat) : (rawBlockRecord depth).LaidOut := by
  constructor <;> simp [rawBlockRecord, Field.apart_iff, Field.names]

/-- The data of a jump is read into a draft that holds its target. -/
theorem jumpRecord_laidOut : jumpRecord.LaidOut := by
  constructor <;> simp [jumpRecord]

/-- Two branches are read into a draft with a part for each of them. -/
theorem branchRecord_laidOut {α : Type} (name : String) (taken : Value → Except Fault α)
    (exit : α → UInt64 → Exit) : (branchRecord name taken exit).LaidOut := by
  constructor <;> simp [branchRecord, Field.apart_iff, Field.names]

/-- The data of a computed jump is read into a draft that holds its candidates. -/
theorem dynamicJumpDataRecord_laidOut : dynamicJumpDataRecord.LaidOut := by
  constructor <;> simp [dynamicJumpDataRecord]

/-- A candidate of a computed jump is read into a draft with a part for each field. -/
theorem dynamicJumpRecord_laidOut :
    (dynamicJumpRecord : Record Value DynamicJumpDraft DynamicJump).LaidOut := by
  constructor <;> simp [dynamicJumpRecord, Field.apart_iff, Field.names]

end EngineHost.Wire
