import EngineHost.Proofs.Halves
import EngineHost.Proofs.History
import Mathlib.Logic.Function.Basic
import Mathlib.Logic.Relation

/-!
# Traffic on a pool

Any number of requests and of closings may be under way on a pool at the same time. Each handle has
a lock. A request tries the locks of the handles in order and passes over those that are held; if
all are held, it takes its turn and waits for one. It keeps the lock for as long as it is in the
sandbox. A closing takes one lock after another, and each time takes the sandbox out. The steps here
are those between which others may come: looking whether the caller has given up, taking a lock and
leaving it, and the two halves of an analysis.
-/

namespace EngineHost

/-- Where a request stands. -/
inductive Stage where
  /-- Handle `index` is tried next, unless the caller has given up. -/
  | asking (index : Nat)
  /-- The lock of handle `index` is being tried. -/
  | trying (index : Nat)
  /-- All handles were held. -/
  | turning
  /-- Handle `index` is waited for next, unless the caller has given up. -/
  | arriving (index : Nat)
  /-- The lock of handle `index` is waited for. -/
  | waiting (index : Nat)
  /-- The lock of handle `index` has been taken. -/
  | holding (index : Nat)
  /-- The sandbox of handle `index` has given an input buffer. -/
  | running (index : Nat) (input : UInt32)
  /-- The request is through with handle `index`, and leaves its lock next. -/
  | leaving (index : Nat) (result : Except Error Bytes)
  /-- The lock has been left. -/
  | served (result : Except Error Bytes)
  /-- The caller has its answer. -/
  | done (result : Except Error Bytes)

/-- Where the closing of a pool stands, given its first error so far. -/
inductive Closing where
  /-- The lock of handle `index` is waited for, or there is no such handle. -/
  | nearing (index : Nat) (error? : Option Error)
  /-- The lock of handle `index` has been taken. -/
  | holding (index : Nat) (error? : Option Error)
  /-- Handle `index` has been closed, or could not be, and its lock is left next. -/
  | leaving (index : Nat) (error? : Option Error) (outcome : Except Error Unit)
  /-- The pool has been closed, or could not be. -/
  | done (outcome : Except Error Unit)

/-- The error of an attempt to close a handle. -/
def Closing.failure? : Except Error Unit → Option Error
  | .ok () => none
  | .error e => some e

/-- What the closing of a pool returns, given its first error. -/
def Closing.answer : Option Error → Except Error Unit
  | none => .ok ()
  | some e => .error e

/-- The lock that a request holds. -/
def Stage.lock? : Stage → Option Nat
  | .holding i | .running i _ | .leaving i _ => some i
  | .asking _ | .trying _ | .turning | .arriving _ | .waiting _ | .served _ | .done _ => none

/-- The lock that a closing holds. -/
def Closing.lock? : Closing → Option Nat
  | .holding i _ | .leaving i .. => some i
  | .nearing .. | .done _ => none

/-- The analysis that is under way: its handle and its input buffer. -/
def Stage.run? : Stage → Option (Nat × UInt32)
  | .running i input => some (i, input)
  | .asking _ | .trying _ | .turning | .arriving _ | .waiting _ | .holding _ | .leaving ..
  | .served _ | .done _ => none

/-- The handle that a request has to do with. -/
def Stage.index? : Stage → Option Nat
  | .asking i | .trying i | .arriving i | .waiting i | .holding i | .running i _ | .leaving i _ =>
    some i
  | .turning | .served _ | .done _ => none

/-- The beginning or the end of an analysis in the sandbox of a handle. -/
inductive RunEvent (ι : Type) where
  | started (client : ι) (index : Nat)
  | finished (client : ι) (index : Nat) (result : Except Error Bytes)

namespace RunEvent

variable {ι : Type}

/-- Whose analysis it is. -/
def client : RunEvent ι → ι
  | .started c _ | .finished c .. => c

/-- Whether an analysis begins. -/
def isStart : RunEvent ι → Bool
  | .started .. => true
  | .finished .. => false

/-- Whether an analysis ends. -/
def isFinish (event : RunEvent ι) : Bool := !event.isStart

end RunEvent

/-- A pool and all that is under way on it: the requests of the clients `ι` and the closings `κ`. -/
structure Traffic (σ ι κ : Type) where
  /-- The pool. -/
  pool : Pool σ
  /-- The locks that are held. -/
  locked : Nat → Bool := fun _ => false
  /-- The callers that have given up. -/
  gaveUp : ι → Bool
  /-- Where each request stands. -/
  stages : ι → Stage := fun _ => .asking 0
  /-- Where each closing stands. -/
  closings : κ → Closing := fun _ => .nearing 0 none
  /-- The analyses so far. -/
  log : List (RunEvent ι) := []

/-- The steps of a request that only it notices, in a pool of `size` handles: it looks whether the
caller has given up, and it passes over a handle that is held. -/
inductive Stage.Moves (size : Nat) (locked : Nat → Bool) (gaveUp : Bool) :
    Stage → Stage → Prop where
  | ask {i : Nat} (hgoes : gaveUp = false) : Moves size locked gaveUp (.asking i) (.trying i)
  | stop {i : Nat} (hstops : gaveUp = true) :
    Moves size locked gaveUp (.asking i) (.done (.error .cancelled))
  | pass {i : Nat} (hheld : locked i = true) (hnext : i + 1 < size) :
    Moves size locked gaveUp (.trying i) (.asking (i + 1))
  | passLast {i : Nat} (hheld : locked i = true) (hlast : i + 1 = size) :
    Moves size locked gaveUp (.trying i) .turning
  | wait {i : Nat} (hgoes : gaveUp = false) : Moves size locked gaveUp (.arriving i) (.waiting i)
  | stopLate {i : Nat} (hstops : gaveUp = true) :
    Moves size locked gaveUp (.arriving i) (.done (.error .cancelled))
  | report {result : Except Error Bytes} :
    Moves size locked gaveUp (.served result) (.done (Handle.report gaveUp result))

/-- A step that only the request notices is not in a sandbox. -/
theorem Stage.Moves.run?_eq {size : Nat} {locked : Nat → Bool} {gaveUp : Bool}
    {stage next : Stage} (hmoves : Stage.Moves size locked gaveUp stage next) :
    stage.run? = next.run? := by
  cases hmoves <;> rfl

/-- A request that is in a sandbox is running there. -/
theorem Stage.eq_running_of_run? {stage : Stage} {i : Nat} {input : UInt32}
    (hrun : stage.run? = some (i, input)) : stage = .running i input := by
  cases stage with
  | running j given =>
    cases hrun
    rfl
  | asking | trying | turning | arriving | waiting | holding | leaving | served | done => cases hrun

/-- Who is in a sandbox holds the lock of its handle. -/
theorem Stage.lock?_of_run? {stage : Stage} {i : Nat} {input : UInt32}
    (hrun : stage.run? = some (i, input)) : stage.lock? = some i := by
  rw [Stage.eq_running_of_run? hrun]
  rfl

/-- In a step that only it notices, a request goes on to a handle of the pool. -/
theorem Stage.Moves.index_lt {size : Nat} {locked : Nat → Bool} {gaveUp : Bool}
    {stage next : Stage} (hmoves : Stage.Moves size locked gaveUp stage next)
    (hstage : ∀ i, stage.index? = some i → i < size) : ∀ i, next.index? = some i → i < size := by
  intro i hi
  cases hmoves with
  | ask | wait => exact hstage i hi
  | pass hheld hnext =>
    cases hi
    exact hnext
  | stop | passLast | stopLate | report => cases hi

/-- A request takes and leaves no lock in a step that only it notices. -/
theorem Stage.Moves.lock?_eq {size : Nat} {locked : Nat → Bool} {gaveUp : Bool}
    {stage next : Stage} (hmoves : Stage.Moves size locked gaveUp stage next) :
    stage.lock? = next.lock? := by
  cases hmoves <;> rfl

namespace Traffic

variable {σ ι κ : Type} [DecidableEq ι] [DecidableEq κ]

/-- A request goes on to another stage. -/
def setStage (s : Traffic σ ι κ) (c : ι) (stage : Stage) : Traffic σ ι κ :=
  { s with stages := Function.update s.stages c stage }

/-- A closing goes on to another stage. -/
def setClosing (s : Traffic σ ι κ) (k : κ) (closing : Closing) : Traffic σ ι κ :=
  { s with closings := Function.update s.closings k closing }

/-- A lock is taken or left. -/
def setLock (s : Traffic σ ι κ) (index : Nat) (held : Bool) : Traffic σ ι κ :=
  { s with locked := Function.update s.locked index held }

/-- The pool changes, and analyses begin or end. -/
def setPool (s : Traffic σ ι κ) (pool : Pool σ) (events : List (RunEvent ι)) : Traffic σ ι κ :=
  { s with pool := pool, log := s.log ++ events }

/-- What a closing does once it has left a lock. A handle that could not be closed is warned
about. -/
def noteClosing (p : Pool σ) (index : Nat) : Except Error Unit → Pool σ
  | .ok () => p
  | .error e => { p with journal := p.journal.warn (.closeFailed index e) }

/-- A step of a request or of a closing, or of a caller that gives up. -/
inductive Step (engine : Engine σ) (requests : ι → Request) :
    Traffic σ ι κ → Traffic σ ι κ → Prop where
  /-- A caller gives up. -/
  | giveUp {s : Traffic σ ι κ} (c : ι) :
    Step engine requests s { s with gaveUp := Function.update s.gaveUp c true }
  /-- A request does what only it notices. -/
  | move {s : Traffic σ ι κ} (c : ι) {stage : Stage}
    (hmoves : Stage.Moves s.pool.size s.locked (s.gaveUp c) (s.stages c) stage) :
    Step engine requests s (s.setStage c stage)
  /-- A request that has passed over all handles learns for which one it has to wait. -/
  | turn {s : Traffic σ ι κ} (c : ι) (hstage : s.stages c = .turning) :
    Step engine requests s
      ((s.setPool s.pool.takeTurn.2 []).setStage c (.arriving s.pool.takeTurn.1))
  /-- A request takes a lock. -/
  | take {s : Traffic σ ι κ} (c : ι) {i : Nat}
    (hstage : s.stages c = .trying i ∨ s.stages c = .waiting i) (hfree : s.locked i = false) :
    Step engine requests s ((s.setLock i true).setStage c (.holding i))
  /-- A request finds the handle closed. -/
  | refuse {s : Traffic σ ι κ} (c : ι) {i : Nat} {e : Error} (hstage : s.stages c = .holding i)
    (hclosed : s.pool.seat i = none)
    (hbegin : (s.pool.beginAt engine i (requests c) false).1 = .error e) :
    Step engine requests s
      ((s.setPool (s.pool.beginAt engine i (requests c) false).2 []).setStage c
        (.leaving i (.error e)))
  /-- A request begins an analysis, which ends at once. -/
  | fail {s : Traffic σ ι κ} (c : ι) {i : Nat} {e : Error} (hstage : s.stages c = .holding i)
    (hopen : (s.pool.seat i).isSome)
    (hbegin : (s.pool.beginAt engine i (requests c) false).1 = .error e) :
    Step engine requests s
      ((s.setPool (s.pool.beginAt engine i (requests c) false).2
        [.started c i, .finished c i (.error e)]).setStage c (.leaving i (.error e)))
  /-- A request begins an analysis. -/
  | begin {s : Traffic σ ι κ} (c : ι) {i : Nat} {input : UInt32} (hstage : s.stages c = .holding i)
    (hbegin : (s.pool.beginAt engine i (requests c) false).1 = .ok input) :
    Step engine requests s
      ((s.setPool (s.pool.beginAt engine i (requests c) false).2 [.started c i]).setStage c
        (.running i input))
  /-- A request ends an analysis. -/
  | complete {s : Traffic σ ι κ} (c : ι) {i : Nat} {input : UInt32} {result : Except Error Bytes}
    (hstage : s.stages c = .running i input)
    (hcomplete : (s.pool.completeAt engine i (requests c) input false).1 = result) :
    Step engine requests s
      ((s.setPool (s.pool.completeAt engine i (requests c) input false).2
        [.finished c i result]).setStage c (.leaving i result))
  /-- A request leaves a lock. -/
  | leave {s : Traffic σ ι κ} (c : ι) {i : Nat} {result : Except Error Bytes}
    (hstage : s.stages c = .leaving i result) :
    Step engine requests s ((s.setLock i false).setStage c (.served result))
  /-- A closing takes the lock of the next handle. -/
  | closeTake {s : Traffic σ ι κ} (k : κ) {i : Nat} {error? : Option Error}
    (hclosing : s.closings k = .nearing i error?) (hi : i < s.pool.size)
    (hfree : s.locked i = false) :
    Step engine requests s ((s.setLock i true).setClosing k (.holding i error?))
  /-- A closing takes the sandbox out. -/
  | close {s : Traffic σ ι κ} (k : κ) {i : Nat} {error? : Option Error}
    (hclosing : s.closings k = .holding i error?) :
    Step engine requests s
      ((s.setPool (s.pool.onSeat i Handle.close).2 []).setClosing k
        (.leaving i error? (s.pool.onSeat i Handle.close).1))
  /-- A closing leaves a lock, and keeps the first error. -/
  | closeLeave {s : Traffic σ ι κ} (k : κ) {i : Nat} {error? : Option Error}
    {outcome : Except Error Unit} (hclosing : s.closings k = .leaving i error? outcome) :
    Step engine requests s
      (((s.setLock i false).setPool (noteClosing s.pool i outcome) []).setClosing k
        (.nearing (i + 1) (error?.or (Closing.failure? outcome))))
  /-- A closing has been at all handles. -/
  | closeDone {s : Traffic σ ι κ} (k : κ) {error? : Option Error}
    (hclosing : s.closings k = .nearing s.pool.size error?) :
    Step engine requests s (s.setClosing k (.done (Closing.answer error?)))

/-- What can come of a state, in any number of steps and in any order. -/
abbrev Reachable (engine : Engine σ) (requests : ι → Request) :
    Traffic σ ι κ → Traffic σ ι κ → Prop :=
  Relation.ReflTransGen (Step engine requests)

/-- What holds in the beginning and is kept by every step holds always. -/
theorem Reachable.invariant {engine : Engine σ} {requests : ι → Request} {start s : Traffic σ ι κ}
    (hreach : Reachable engine requests start s) (P : Traffic σ ι κ → Prop) (hstart : P start)
    (hstep : ∀ s s', P s → Step engine requests s s' → P s') : P s := by
  induction hreach with
  | refl => exact hstart
  | tail _ hnext ih => exact hstep _ _ ih hnext

/-! ### Locks -/

/-- The lock that a request or a closing holds. -/
def lockOf (s : Traffic σ ι κ) : ι ⊕ κ → Option Nat
  | .inl c => (s.stages c).lock?
  | .inr k => (s.closings k).lock?

/-- A request that moves on changes the lock of nobody else. -/
theorem lockOf_setStage (s : Traffic σ ι κ) (c : ι) (stage : Stage) :
    (s.setStage c stage).lockOf = Function.update s.lockOf (.inl c) stage.lock? := by
  funext a
  cases a with
  | inl d => by_cases hd : d = c <;> simp [lockOf, setStage, hd]
  | inr k => simp [lockOf, setStage]

/-- A closing that moves on changes the lock of nobody else. -/
theorem lockOf_setClosing (s : Traffic σ ι κ) (k : κ) (closing : Closing) :
    (s.setClosing k closing).lockOf = Function.update s.lockOf (.inr k) closing.lock? := by
  funext a
  cases a with
  | inl c => simp [lockOf, setClosing]
  | inr l => by_cases hl : l = k <;> simp [lockOf, setClosing, hl]

/-- Locks are held by one at a time, and only those that are marked as held. -/
structure Exclusive {α : Type} (locked : Nat → Bool) (lockOf : α → Option Nat) : Prop where
  held : ∀ {a : α} {i : Nat}, lockOf a = some i → locked i = true
  apart : ∀ {a b : α} {i : Nat}, lockOf a = some i → lockOf b = some i → a = b

namespace Exclusive

variable {α : Type} [DecidableEq α] {locked : Nat → Bool} {lockOf : α → Option Nat}

/-- Someone who keeps the lock that it holds, or goes on holding none. -/
theorem keep (h : Exclusive locked lockOf) {a : α} {lock? : Option Nat} (ha : lockOf a = lock?) :
    Exclusive locked (Function.update lockOf a lock?) := by
  rwa [← ha, Function.update_eq_self]

/-- Someone takes a lock that nobody holds. -/
theorem take (h : Exclusive locked lockOf) {i : Nat} (hfree : locked i = false) (a : α) :
    Exclusive (Function.update locked i true) (Function.update lockOf a (some i)) := by
  have hothers : ∀ b, b ≠ a → Function.update lockOf a (some i) b ≠ some i := by
    intro b hb hheld
    rw [Function.update_of_ne hb] at hheld
    rw [h.held hheld] at hfree
    cases hfree
  constructor
  · intro b l hb
    by_cases hl : l = i
    · rw [hl, Function.update_self]
    · rw [Function.update_of_ne hl]
      by_cases hba : b = a
      · subst hba
        rw [Function.update_self] at hb
        exact absurd (Option.some.inj hb).symm hl
      · rw [Function.update_of_ne hba] at hb
        exact h.held hb
  · intro b b' l hb hb'
    by_cases hl : l = i
    · subst hl
      have heq : ∀ d, Function.update lockOf a (some l) d = some l → d = a := fun d hd =>
        Decidable.byContradiction fun hne => hothers d hne hd
      rw [heq b hb, heq b' hb']
    · have hne : ∀ d, Function.update lockOf a (some i) d = some l → lockOf d = some l := by
        intro d hd
        by_cases hda : d = a
        · subst hda
          rw [Function.update_self] at hd
          exact absurd (Option.some.inj hd).symm hl
        · rwa [Function.update_of_ne hda] at hd
      exact h.apart (hne b hb) (hne b' hb')

/-- Someone leaves the lock that it holds. -/
theorem leave (h : Exclusive locked lockOf) {a : α} {i : Nat} (ha : lockOf a = some i) :
    Exclusive (Function.update locked i false) (Function.update lockOf a none) := by
  have hkept : ∀ {b l}, Function.update lockOf a none b = some l → b ≠ a ∧ lockOf b = some l := by
    intro b l hb
    by_cases hba : b = a
    · subst hba
      rw [Function.update_self] at hb
      cases hb
    · rw [Function.update_of_ne hba] at hb
      exact ⟨hba, hb⟩
  constructor
  · intro b l hb
    obtain ⟨hba, hb⟩ := hkept hb
    have hl : l ≠ i := by
      rintro rfl
      exact hba (h.apart hb ha)
    rw [Function.update_of_ne hl]
    exact h.held hb
  · intro b b' l hb hb'
    exact h.apart (hkept hb).2 (hkept hb').2

end Exclusive

/-- A request goes on with the lock that it holds, or without one. -/
theorem Exclusive.setStage {s : Traffic σ ι κ} (h : Exclusive s.locked s.lockOf) {c : ι}
    {stage next : Stage} (hstage : s.stages c = stage) (hlock : stage.lock? = next.lock?) :
    Exclusive s.locked (s.setStage c next).lockOf := by
  rw [lockOf_setStage]
  exact h.keep (by rw [lockOf, hstage, hlock])

/-- A closing goes on with the lock that it holds, or without one. -/
theorem Exclusive.setClosing {s : Traffic σ ι κ} (h : Exclusive s.locked s.lockOf) {k : κ}
    {closing next : Closing} (hclosing : s.closings k = closing)
    (hlock : closing.lock? = next.lock?) :
    Exclusive s.locked (s.setClosing k next).lockOf := by
  rw [lockOf_setClosing]
  exact h.keep (by rw [lockOf, hclosing, hlock])

/-- Every step keeps locks with one holder at a time. -/
theorem Step.exclusive {engine : Engine σ} {requests : ι → Request} {s s' : Traffic σ ι κ}
    (hstep : Step engine requests s s') (h : Exclusive s.locked s.lockOf) :
    Exclusive s'.locked s'.lockOf := by
  cases hstep with
  | giveUp c => exact h
  | move c hmoves => exact h.setStage rfl hmoves.lock?_eq
  | turn c hstage => exact h.setStage hstage rfl
  | refuse c hstage hclosed hbegin => exact h.setStage hstage rfl
  | fail c hstage hopen hbegin => exact h.setStage hstage rfl
  | begin c hstage hbegin => exact h.setStage hstage rfl
  | complete c hstage hcomplete => exact h.setStage hstage rfl
  | close k hclosing => exact h.setClosing hclosing rfl
  | closeDone k hclosing => exact h.setClosing hclosing rfl
  | take c hstage hfree =>
    rw [lockOf_setStage]
    exact h.take hfree (.inl c)
  | leave c hstage =>
    rw [lockOf_setStage]
    exact h.leave (congrArg Stage.lock? hstage)
  | closeTake k hclosing hi hfree =>
    rw [lockOf_setClosing]
    exact h.take hfree (.inr k)
  | closeLeave k hclosing =>
    rw [lockOf_setClosing]
    exact h.leave (congrArg Closing.lock? hclosing)

/-! ### Handles -/

/-- No step changes the number of handles. -/
theorem Step.size_eq {engine : Engine σ} {requests : ι → Request} {s s' : Traffic σ ι κ}
    (hstep : Step engine requests s s') : s'.pool.size = s.pool.size := by
  cases hstep with
  | refuse c hstage hclosed hbegin => simp [setPool, setStage, Pool.beginAt]
  | fail c hstage hopen hbegin => simp [setPool, setStage, Pool.beginAt]
  | begin c hstage hbegin => simp [setPool, setStage, Pool.beginAt]
  | complete c hstage hcomplete => simp [setPool, setStage, Pool.completeAt]
  | close k hclosing => simp [setPool, setClosing]
  | @closeLeave k i error? outcome hclosing =>
    cases outcome <;> rfl
  | giveUp | move | turn | take | leave | closeTake | closeDone => rfl

/-- Requests and closings have to do only with handles that the pool has. -/
structure InRange (s : Traffic σ ι κ) : Prop where
  stage : ∀ c i, (s.stages c).index? = some i → i < s.pool.size
  closing : ∀ k i, (s.closings k).lock? = some i → i < s.pool.size

/-- Every step leads to handles that the pool has. -/
theorem Step.inRange {engine : Engine σ} {requests : ι → Request} {s s' : Traffic σ ι κ}
    (hstep : Step engine requests s s') (h : s.InRange) : s'.InRange := by
  have hstages : ∀ (c : ι) (next : Stage), (∀ i, next.index? = some i → i < s.pool.size) →
      ∀ d i, (Function.update s.stages c next d).index? = some i → i < s.pool.size := by
    intro c next hnext
    rw [Function.forall_update_iff s.stages fun _ stage => ∀ i, stage.index? = some i →
      i < s.pool.size]
    exact ⟨hnext, fun d _ => h.stage d⟩
  have hclosings : ∀ (k : κ) (next : Closing), (∀ i, next.lock? = some i → i < s.pool.size) →
      ∀ l i, (Function.update s.closings k next l).lock? = some i → i < s.pool.size := by
    intro k next hnext
    rw [Function.forall_update_iff s.closings fun _ closing => ∀ i, closing.lock? = some i →
      i < s.pool.size]
    exact ⟨hnext, fun l _ => h.closing l⟩
  constructor
  · rw [hstep.size_eq]
    cases hstep with
    | giveUp | closeTake | close | closeLeave | closeDone => exact h.stage
    | move c hmoves => exact hstages c _ (hmoves.index_lt (h.stage c))
    | turn c hstage =>
      refine hstages c _ fun i hi => ?_
      cases hi
      exact Nat.mod_lt _ (List.length_pos_of_ne_nil s.pool.seats_ne_nil)
    | take c hstage hfree =>
      refine hstages c _ fun i hi => ?_
      rcases hstage with hstage | hstage
      · exact h.stage c i (by rw [hstage]; exact hi)
      · exact h.stage c i (by rw [hstage]; exact hi)
    | refuse c hstage => exact hstages c _ fun i hi => h.stage c i (by rw [hstage]; exact hi)
    | fail c hstage => exact hstages c _ fun i hi => h.stage c i (by rw [hstage]; exact hi)
    | begin c hstage => exact hstages c _ fun i hi => h.stage c i (by rw [hstage]; exact hi)
    | complete c hstage => exact hstages c _ fun i hi => h.stage c i (by rw [hstage]; exact hi)
    | leave c hstage => exact hstages c _ fun i hi => by cases hi
  · rw [hstep.size_eq]
    cases hstep with
    | giveUp | move | turn | take | refuse | fail | begin | complete | leave => exact h.closing
    | closeTake k hclosing hi =>
      refine hclosings k _ fun j hj => ?_
      cases hj
      exact hi
    | close k hclosing =>
      exact hclosings k _ fun i hi => h.closing k i (by rw [hclosing]; exact hi)
    | closeLeave k hclosing => exact hclosings k _ fun i hi => by cases hi
    | closeDone k hclosing => exact hclosings k _ fun i hi => by cases hi

end Traffic

end EngineHost
