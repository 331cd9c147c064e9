import EngineHost.Contract.Basic

/-!
# Walking a control flow graph

The successors of a block are the destinations that are known. A block is reachable if a chain of
blocks, each the first with its start, leads to it.
-/

namespace EngineHost

/-- The known destinations among the candidates of a computed jump. -/
def resolved (candidates : List DynamicJump) : List UInt64 := candidates.filterMap (·.target)

/-- `Block.successors`: the known destinations of a block, in the order of its branches. -/
def Block.successors (b : Block) : List UInt64 :=
  match b.exit with
  | .terminate _ => []
  | .jump target => [target]
  | .jumpIf trueTo falseTo => [trueTo, falseTo]
  | .dynamicJump targets => resolved targets
  | .dynamicJumpIf trueTo falseTo => resolved trueTo ++ [falseTo]

namespace Graph

/-- `ControlFlowGraph.block`: the first block with this start. -/
def block? (g : Graph) (start : UInt64) : Option Block := g.blocks.find? (·.start = start)

/-- The starts of blocks that are not among the visited ones. -/
def unvisited (g : Graph) (visited : List UInt64) : List Block :=
  g.blocks.filter fun b => !visited.contains b.start

/-- Visiting one more start takes the blocks with this start from the unvisited ones. -/
theorem unvisited_cons (g : Graph) (start : UInt64) (visited : List UInt64) :
    g.unvisited (start :: visited) =
      (g.unvisited visited).filter fun c => !decide (c.start = start) := by
  simp only [unvisited, List.filter_filter]
  congr 1
  funext c
  by_cases hc : c.start = start <;> simp [hc]

/-- The first block with a start that is not visited is unvisited. -/
theorem mem_unvisited {g : Graph} {visited : List UInt64} {start : UInt64} {b : Block}
    (hblock : g.block? start = some b) (hnew : start ∉ visited) :
    b ∈ g.unvisited visited ∧ b.start = start := by
  have hmem : b ∈ g.blocks := List.mem_of_find?_eq_some hblock
  have hstart : b.start = start := by simpa using List.find?_some hblock
  exact ⟨by simp [unvisited, hmem, hstart, hnew], hstart⟩

/-- Visiting the start of a block leaves fewer blocks unvisited. -/
theorem length_unvisited_lt {g : Graph} {visited : List UInt64} {start : UInt64} {b : Block}
    (hblock : g.block? start = some b) (hnew : start ∉ visited) :
    (g.unvisited (start :: visited)).length < (g.unvisited visited).length := by
  obtain ⟨hmem, hstart⟩ := mem_unvisited hblock hnew
  rw [unvisited_cons]
  exact List.length_filter_lt_length_iff_exists.mpr ⟨b, hmem, by simp [hstart]⟩

set_option linter.unusedVariables false in
/-- The loop of `reachable_from`: the starts of the blocks visited from a queue of offsets, added to
those already visited. An offset that starts no block is passed over. -/
def visit (g : Graph) : List UInt64 → List UInt64 → List UInt64
  | [], visited => visited
  | start :: queue, visited =>
    match hblock : g.block? start with
    | none => visit g queue visited
    | some b =>
      if hseen : start ∈ visited then visit g queue visited
      else visit g (queue ++ b.successors) (start :: visited)
termination_by queue visited => ((g.unvisited visited).length, queue.length)
decreasing_by
  · exact Prod.Lex.right _ (by simp)
  · exact Prod.Lex.right _ (by simp)
  · exact Prod.Lex.left _ _ (length_unvisited_lt hblock hseen)

/-- `ControlFlowGraph.reachable_from`: the starts of the blocks that are reachable from an offset,
in ascending order. -/
def reachableFrom (g : Graph) (start : UInt64) : List UInt64 :=
  (g.visit [start] []).mergeSort (· ≤ ·)

end Graph

end EngineHost
