import EngineHost.Contract.Graph
import Mathlib.Algebra.Order.BigOperators.Group.List
import Mathlib.Algebra.Order.Ring.Nat
import Mathlib.Data.List.Chain
import Mathlib.Data.List.Nodup

/-!
# Reachable blocks

A walk over a control flow graph takes the offsets of a queue one by one. Every turn keeps what the
walk has found: the visited offsets are the ends of chains of blocks, and whatever follows a visited
block is visited or waits in the queue. A walk has no more turns than the graph has edges, and one
more for the offset that it starts from. When the queue is empty, the visited offsets are therefore
exactly the ends of chains.
-/

namespace EngineHost

namespace Graph

/-! ### Chains of blocks -/

/-- The block is the first in the list of blocks that has this start. -/
def FirstAt (g : Graph) (start : UInt64) (b : Block) : Prop :=
  ∃ before after, g.blocks = before ++ b :: after ∧ b.start = start ∧
    ∀ c ∈ before, c.start ≠ start

/-- Some block has this start. -/
def IsStart (g : Graph) (offset : UInt64) : Prop := ∃ b ∈ g.blocks, b.start = offset

/-- The first block at one offset has the other among its successors. -/
def Leads (g : Graph) (offset next : UInt64) : Prop :=
  ∃ b, g.FirstAt offset b ∧ next ∈ b.successors

/-- A path of block starts, each of which leads to the next. -/
structure Chain (g : Graph) (start last : UInt64) (path : List UInt64) : Prop where
  head_eq : path.head? = some start
  getLast_eq : path.getLast? = some last
  isStart : ∀ offset ∈ path, g.IsStart offset
  leads : path.IsChain g.Leads

variable {g : Graph} {start offset next : UInt64}

/-- The block found at an offset is the first one that starts there. -/
theorem block?_eq_some_iff {b : Block} : g.block? offset = some b ↔ g.FirstAt offset b := by
  simp only [block?, List.find?_eq_some_iff_append, FirstAt, decide_eq_true_eq,
    Bool.not_eq_true', decide_eq_false_iff_not]
  constructor
  · rintro ⟨hstart, before, after, hblocks, hbefore⟩
    exact ⟨before, after, hblocks, hstart, hbefore⟩
  · rintro ⟨before, after, hblocks, hstart, hbefore⟩
    exact ⟨hstart, before, after, hblocks, hbefore⟩

/-- No block is found just at the offsets where none starts. -/
theorem block?_eq_none_iff : g.block? offset = none ↔ ¬g.IsStart offset := by
  simp [block?, IsStart]

/-- Where a block is found, one starts. -/
theorem isStart_of_block? {b : Block} (hblock : g.block? offset = some b) : g.IsStart offset := by
  by_contra hnot
  rw [block?_eq_none_iff.mpr hnot] at hblock
  cases hblock

/-- A block start alone is a chain. -/
theorem IsStart.chain (hstart : g.IsStart start) : g.Chain start start [start] where
  head_eq := rfl
  getLast_eq := rfl
  isStart := by simpa using hstart
  leads := .singleton start

/-- A chain goes on with a block start to which its end leads. -/
theorem Chain.concat {path : List UInt64} (hchain : g.Chain start offset path)
    (hleads : g.Leads offset next) (hnext : g.IsStart next) :
    g.Chain start next (path ++ [next]) where
  head_eq := by rw [List.head?_append, hchain.head_eq, Option.some_or]
  getLast_eq := List.getLast?_concat
  isStart := by
    intro x hx
    rcases List.mem_append.mp hx with hold | hnew
    · exact hchain.isStart x hold
    · rwa [List.mem_singleton.mp hnew]
  leads := by
    apply List.isChain_append.mpr
    refine ⟨hchain.leads, .singleton next, ?_⟩
    intro x hx y hy
    rw [hchain.getLast_eq] at hx
    cases hx
    cases hy
    exact hleads

/-- A set of offsets that holds the first one of a chain, and with every offset the block starts to
which it leads, holds the last one. -/
theorem Chain.mem_of_closed {path : List UInt64} {last : UInt64} {reached : List UInt64}
    (hchain : g.Chain start last path) (hstart : start ∈ reached)
    (hclosed : ∀ x ∈ reached, ∀ y, g.Leads x y → g.IsStart y → y ∈ reached) :
    last ∈ reached := by
  induction path generalizing start with
  | nil => cases hchain.head_eq
  | cons x rest ih =>
    obtain rfl : x = start := Option.some.inj hchain.head_eq
    cases rest with
    | nil =>
      obtain rfl : x = last := Option.some.inj hchain.getLast_eq
      exact hstart
    | cons y rest =>
      obtain ⟨hleads, hrest⟩ := List.isChain_cons_cons.mp hchain.leads
      have hy : g.IsStart y := hchain.isStart y (by simp)
      have htail : g.Chain y last (y :: rest) :=
        { head_eq := rfl
          getLast_eq := by simpa using hchain.getLast_eq
          isStart := fun z hz => hchain.isStart z (List.mem_cons_of_mem x hz)
          leads := hrest }
      exact ih htail (hclosed x hstart y hleads hy)

/-! ### Turns of a walk -/

/-- A walk under way. -/
structure Walk where
  /-- The offsets that wait. -/
  queue : List UInt64
  /-- The starts of the blocks visited so far. -/
  visited : List UInt64

/-- One turn of a walk, in which it takes the first offset of its queue. -/
inductive Turn (g : Graph) : Walk → Walk → Prop where
  /-- No block starts at the offset. -/
  | dangling {offset : UInt64} {queue visited : List UInt64} (hblock : g.block? offset = none) :
    Turn g ⟨offset :: queue, visited⟩ ⟨queue, visited⟩
  /-- The block at the offset has been visited. -/
  | seen {offset : UInt64} {queue visited : List UInt64} {b : Block}
    (hblock : g.block? offset = some b) (hseen : offset ∈ visited) :
    Turn g ⟨offset :: queue, visited⟩ ⟨queue, visited⟩
  /-- The block at the offset is visited, and its successors have to wait. -/
  | fresh {offset : UInt64} {queue visited : List UInt64} {b : Block}
    (hblock : g.block? offset = some b) (hnew : offset ∉ visited) :
    Turn g ⟨offset :: queue, visited⟩ ⟨queue ++ b.successors, offset :: visited⟩

/-- A number of turns of a walk. -/
inductive Turns (g : Graph) : Nat → Walk → Walk → Prop where
  | none (w : Walk) : Turns g 0 w w
  | next {n : Nat} {w w' w'' : Walk} (hturn : Turn g w w') (hrest : Turns g n w' w'') :
    Turns g (n + 1) w w''

/-- The number of edges out of the blocks that are not visited. -/
def edgesLeft (g : Graph) (visited : List UInt64) : Nat :=
  ((g.unvisited visited).map (·.successors.length)).sum

/-- The number of edges of a graph. -/
def edgeCount (g : Graph) : Nat := (g.blocks.map (·.successors.length)).sum

/-- What is left out of a sum is missing in it. -/
theorem sum_filter_add_le {α : Type} {items : List α} {keep : α → Bool} {a : α} (size : α → Nat)
    (hmem : a ∈ items) (hout : keep a = false) :
    ((items.filter keep).map size).sum + size a ≤ (items.map size).sum := by
  induction items with
  | nil => cases hmem
  | cons b items ih =>
    have hrest : ((items.filter keep).map size).sum ≤ (items.map size).sum :=
      (List.filter_sublist.map size).sum_le_sum (by simp)
    rcases List.mem_cons.mp hmem with rfl | hlater
    · simp only [List.filter_cons, hout, List.map_cons, List.sum_cons, Bool.false_eq_true, if_false]
      omega
    · have hle := ih hlater
      cases hb : keep b
      · simp only [List.filter_cons, hb, List.map_cons, List.sum_cons, Bool.false_eq_true, if_false]
        omega
      · simp only [List.filter_cons, hb, List.map_cons, List.sum_cons, if_true]
        omega

/-- The edges of a block that is visited are no longer left. -/
theorem edgesLeft_cons_add_le {visited : List UInt64} {b : Block}
    (hblock : g.block? offset = some b) (hnew : offset ∉ visited) :
    g.edgesLeft (offset :: visited) + b.successors.length ≤ g.edgesLeft visited := by
  obtain ⟨hmem, hstart⟩ := mem_unvisited hblock hnew
  unfold edgesLeft
  rw [unvisited_cons]
  exact sum_filter_add_le (fun c : Block => c.successors.length) hmem (by simp [hstart])

/-- A walk ends with the visited offsets, after no more turns than there are offsets in its queue
and edges left. -/
theorem exists_turns_visit (g : Graph) (queue visited : List UInt64) :
    ∃ n ≤ queue.length + g.edgesLeft visited,
      Turns g n ⟨queue, visited⟩ ⟨[], g.visit queue visited⟩ := by
  fun_induction visit g queue visited with
  | case1 visited => exact ⟨0, Nat.zero_le _, .none _⟩
  | case2 offset queue visited hblock ih =>
    obtain ⟨n, hn, hturns⟩ := ih
    refine ⟨n + 1, ?_, .next (.dangling hblock) hturns⟩
    rw [List.length_cons]
    omega
  | case3 offset queue visited b hblock hseen ih =>
    obtain ⟨n, hn, hturns⟩ := ih
    refine ⟨n + 1, ?_, .next (.seen hblock hseen) hturns⟩
    rw [List.length_cons]
    omega
  | case4 offset queue visited b hblock hnew ih =>
    obtain ⟨n, hn, hturns⟩ := ih
    -- The successors that join the queue are paid for by the edges of the block.
    have hedges := edgesLeft_cons_add_le hblock hnew
    refine ⟨n + 1, ?_, .next (.fresh hblock hnew) hturns⟩
    rw [List.length_append] at hn
    rw [List.length_cons]
    omega

/-! ### What a walk keeps -/

/-- The walk has visited the offset or will look at it. -/
def Walk.Knows (w : Walk) (offset : UInt64) : Prop := offset ∈ w.visited ∨ offset ∈ w.queue

/-- What a walk from `start` keeps. -/
structure Walk.Faithful (g : Graph) (start : UInt64) (w : Walk) : Prop where
  nodup : w.visited.Nodup
  /-- A chain leads to every visited offset. -/
  visited_reached : ∀ x ∈ w.visited, ∃ path, g.Chain start x path
  /-- A chain leads to every block start that waits. -/
  queue_reached : ∀ x ∈ w.queue, g.IsStart x → ∃ path, g.Chain start x path
  start_known : g.IsStart start → w.Knows start
  /-- Block starts to which a visited offset leads are not forgotten. -/
  closed : ∀ x ∈ w.visited, ∀ y, g.Leads x y → g.IsStart y → w.Knows y

/-- Every walk begins faithfully. -/
theorem Walk.faithful_begin (g : Graph) (start : UInt64) : Walk.Faithful g start ⟨[start], []⟩ where
  nodup := .nil
  visited_reached := by simp
  queue_reached := by
    intro x hx hstart
    obtain rfl : x = start := by simpa using hx
    exact ⟨[x], hstart.chain⟩
  start_known := fun _ => .inr (by simp)
  closed := by simp

/-- A turn forgets no block start. -/
theorem Turn.knows {w w' : Walk} (hturn : Turn g w w') (hknows : w.Knows offset)
    (hstart : g.IsStart offset) : w'.Knows offset := by
  cases hturn with
  | dangling hblock =>
    rcases hknows with hvisited | hqueue
    · exact .inl hvisited
    · rcases List.mem_cons.mp hqueue with rfl | hlater
      · exact absurd hstart (block?_eq_none_iff.mp hblock)
      · exact .inr hlater
  | seen hblock hseen =>
    rcases hknows with hvisited | hqueue
    · exact .inl hvisited
    · rcases List.mem_cons.mp hqueue with rfl | hlater
      · exact .inl hseen
      · exact .inr hlater
  | fresh hblock hnew =>
    rcases hknows with hvisited | hqueue
    · exact .inl (List.mem_cons_of_mem _ hvisited)
    · rcases List.mem_cons.mp hqueue with rfl | hlater
      · exact .inl (List.mem_cons_self ..)
      · exact .inr (List.mem_append_left _ hlater)

/-- A turn that only takes an offset from the queue keeps a walk faithful. -/
theorem Walk.Faithful.drop {queue visited : List UInt64}
    (hfaithful : Walk.Faithful g start ⟨offset :: queue, visited⟩)
    (hturn : Turn g ⟨offset :: queue, visited⟩ ⟨queue, visited⟩) :
    Walk.Faithful g start ⟨queue, visited⟩ where
  nodup := hfaithful.nodup
  visited_reached := hfaithful.visited_reached
  queue_reached := fun x hx => hfaithful.queue_reached x (List.mem_cons_of_mem offset hx)
  start_known := fun hstart => hturn.knows (hfaithful.start_known hstart) hstart
  closed := fun x hx y hleads hy => hturn.knows (hfaithful.closed x hx y hleads hy) hy

/-- Every turn keeps a walk faithful. -/
theorem Turn.faithful {w w' : Walk} (hturn : Turn g w w') (hfaithful : w.Faithful g start) :
    w'.Faithful g start := by
  have hknows : ∀ x, w.Knows x → g.IsStart x → w'.Knows x := fun _ => hturn.knows
  cases hturn with
  | dangling hblock => exact hfaithful.drop (.dangling hblock)
  | seen hblock hseen => exact hfaithful.drop (.seen hblock hseen)
  | @fresh offset queue visited b hblock hnew =>
    have hoffset : g.IsStart offset := isStart_of_block? hblock
    obtain ⟨path, hpath⟩ := hfaithful.queue_reached offset (by simp) hoffset
    exact
      { nodup := List.nodup_cons.mpr ⟨hnew, hfaithful.nodup⟩
        visited_reached := by
          intro x hx
          rcases List.mem_cons.mp hx with rfl | hold
          · exact ⟨path, hpath⟩
          · exact hfaithful.visited_reached x hold
        queue_reached := by
          intro x hx hstart
          rcases List.mem_append.mp hx with hold | hnext
          · exact hfaithful.queue_reached x (List.mem_cons_of_mem offset hold) hstart
          · have hleads : g.Leads offset x := ⟨b, block?_eq_some_iff.mp hblock, hnext⟩
            exact ⟨path ++ [x], hpath.concat hleads hstart⟩
        start_known := fun hstart => hknows start (hfaithful.start_known hstart) hstart
        closed := by
          intro x hx y hleads hy
          rcases List.mem_cons.mp hx with rfl | hold
          · obtain ⟨c, hfirst, hnext⟩ := hleads
            have hsame : some b = some c := by rw [← hblock, block?_eq_some_iff.mpr hfirst]
            cases hsame
            exact .inr (List.mem_append_right _ hnext)
          · exact hknows y (hfaithful.closed x hold y hleads hy) hy }

/-- Any number of turns keeps a walk faithful. -/
theorem Turns.faithful {n : Nat} {w w' : Walk} (hturns : Turns g n w w')
    (hfaithful : w.Faithful g start) : w'.Faithful g start := by
  induction hturns with
  | none w => exact hfaithful
  | next hturn _ ih => exact ih (hturn.faithful hfaithful)

/-- A faithful walk whose queue is empty has visited the ends of chains and nothing else. -/
theorem Walk.Faithful.mem_visited_iff {visited : List UInt64} {x : UInt64}
    (hfaithful : Walk.Faithful g start ⟨[], visited⟩) :
    x ∈ visited ↔ ∃ path, g.Chain start x path := by
  constructor
  · exact hfaithful.visited_reached x
  · rintro ⟨path, hchain⟩
    have hstart : start ∈ visited := by
      have hmem : start ∈ path := List.mem_of_head? hchain.head_eq
      simpa [Walk.Knows] using hfaithful.start_known (hchain.isStart start hmem)
    apply hchain.mem_of_closed hstart
    intro y hy z hleads hz
    simpa [Walk.Knows] using hfaithful.closed y hy z hleads hz

/-- The visited offsets come in ascending order. -/
theorem pairwise_lt_mergeSort {visited : List UInt64} (hnodup : visited.Nodup) :
    (visited.mergeSort (· ≤ ·)).Pairwise (· < ·) := by
  have hsorted : (visited.mergeSort (· ≤ ·)).Pairwise fun a b => decide (a ≤ b) = true := by
    apply List.pairwise_mergeSort
    · intro a b c hab hbc
      simp only [decide_eq_true_eq] at hab hbc ⊢
      exact UInt64.le_trans hab hbc
    · intro a b
      simpa using UInt64.le_total a b
  have hdistinct : (visited.mergeSort (· ≤ ·)).Nodup :=
    (List.mergeSort_perm visited _).nodup_iff.mpr hnodup
  refine (hsorted.and hdistinct).imp ?_
  rintro a b ⟨hle, hne⟩
  exact UInt64.lt_of_le_of_ne (by simpa using hle) hne

/-- The walk from an offset ends within as many turns as the graph has edges and one more, and what
it has visited then is listed in ascending order: exactly the offsets to which a chain of blocks
leads. There are none if no block starts at the offset. -/
theorem reachableFrom_exact (g : Graph) (start : UInt64) :
    (∃ n ≤ 1 + g.edgeCount, Turns g n ⟨[start], []⟩ ⟨[], g.visit [start] []⟩) ∧
      (g.reachableFrom start).Pairwise (· < ·) ∧
      (∀ x, x ∈ g.reachableFrom start ↔ ∃ path, g.Chain start x path) ∧
      (g.reachableFrom start = [] ↔ ¬g.IsStart start) := by
  obtain ⟨n, hn, hturns⟩ := exists_turns_visit g [start] []
  have hfaithful := hturns.faithful (Walk.faithful_begin g start)
  have hedges : g.edgesLeft [] = g.edgeCount := by simp [edgesLeft, edgeCount, unvisited]
  have hmem : ∀ x, x ∈ g.reachableFrom start ↔ ∃ path, g.Chain start x path := by
    intro x
    rw [reachableFrom, List.mem_mergeSort, hfaithful.mem_visited_iff]
  refine ⟨⟨n, ?_, hturns⟩, pairwise_lt_mergeSort hfaithful.nodup, hmem, ?_⟩
  · rw [hedges] at hn
    simpa using hn
  · rw [List.eq_nil_iff_forall_not_mem]
    constructor
    · intro hnone hstart
      exact hnone start ((hmem start).mpr ⟨[start], hstart.chain⟩)
    · intro hnot x hx
      obtain ⟨path, hchain⟩ := (hmem x).mp hx
      exact hnot (hchain.isStart start (List.mem_of_head? hchain.head_eq))

end Graph

end EngineHost
