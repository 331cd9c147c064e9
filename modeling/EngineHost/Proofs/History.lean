import Mathlib.Data.List.Forall2
import EngineHost.Proofs.Exchange

/-!
# Histories of a handle

A handle serves requests one after the other. Its history tells for each of them what was answered
and which calls of the engine were made. Every request that reaches the sandbox makes the calls of
one exchange, and over the whole history every buffer that the engine gave is given back before
the next one is asked for.
-/

namespace EngineHost

variable {σ : Type}

/-- A request as it is made: its caller may have given up before it, or by its end. -/
structure Attempt where
  /-- The request. -/
  request : Request
  /-- The caller has given up before the request is made. -/
  cancelledBefore : Bool := false
  /-- The caller has given up by the end of the call. -/
  cancelledAfter : Bool := false

/-- What a history tells about one request. -/
structure Entry where
  /-- What was answered. -/
  result : Except Error Bytes
  /-- The calls of the engine. -/
  events : List Event

namespace Handle

/-- What a sandbox answers, for a caller that may have given up meanwhile. -/
def report (cancelled : Bool) : Except Error Bytes → Except Error Bytes
  | .error e => .error e
  | .ok bytes => if cancelled then .error .cancelled else .ok bytes

/-- A caller that has not given up is told what the sandbox answers. -/
@[simp] theorem report_false (result : Except Error Bytes) : report false result = result := by
  cases result <;> rfl

/-- On an open handle a call is an analysis in the sandbox, which is then counted. -/
theorem analyze_of_open (engine : Engine σ) (s : Sandbox σ) (j : Journal) (request : Request)
    (after : Bool) :
    let run := Sandbox.analyze engine request.code request.options.mask s j
    analyze engine ⟨some s, j⟩ request false after =
      (report after run.1, ⟨some run.2.1, run.2.2.count (·.recordCall (!run.1.isOk))⟩) := by
  unfold analyze begin Sandbox.analyze
  simp only [Bool.false_eq_true, if_false]
  rcases Sandbox.begin engine request.code s j with ⟨e | input, started, noted⟩
  · rfl
  · simp only [complete]
    rcases Sandbox.complete engine input request.code request.options.mask started noted with
      ⟨e | bytes, ended, last⟩ <;> rfl

/-- The handle on the recording engine, before any call is logged. -/
def watched (h : Handle σ) : Handle (σ × List Event) :=
  ⟨h.sandbox.map (·.watched []), h.journal⟩

/-- The handle on the engine itself. -/
def unwatched (h : Handle (σ × List Event)) : Handle σ :=
  ⟨h.sandbox.map fun s => ⟨s.memory, s.state.1⟩, h.journal⟩

/-- The calls that are logged on a handle. -/
def log (h : Handle (σ × List Event)) : List Event := h.sandbox.elim [] (·.state.2)

/-- The answers to requests, one after the other. -/
def answers (engine : Engine σ) : Handle σ → List Attempt → List (Except Error Bytes)
  | _, [] => []
  | h, a :: rest =>
    let (result, after) := h.analyze engine a.request a.cancelledBefore a.cancelledAfter
    result :: answers engine after rest

/-- The history of a handle over requests, one after the other. Each of them is logged anew. -/
def history (engine : Engine σ) : Handle σ → List Attempt → List Entry
  | _, [] => []
  | h, a :: rest =>
    let (result, after) :=
      h.watched.analyze engine.recording a.request a.cancelledBefore a.cancelledAfter
    ⟨result, after.log⟩ :: history engine after.unwatched rest

end Handle

/-- The calls of an entry are those of its request: none if the caller had given up before, and
otherwise those of one exchange with the sandbox. -/
def Entry.Tells (a : Attempt) (entry : Entry) : Prop :=
  if a.cancelledBefore then entry.events = [] ∧ entry.result = .error .cancelled
  else ∃ result, Exchange a.request.code a.request.options.mask entry.events result ∧
    entry.result = Handle.report a.cancelledAfter result

namespace Handle

/-- One request, seen through the recording engine. -/
theorem analyze_watched (engine : Engine σ) (s : Sandbox σ) (j : Journal) (a : Attempt) :
    ∃ (s' : Sandbox σ) (j' : Journal) (entry : Entry),
      analyze engine ⟨some s, j⟩ a.request a.cancelledBefore a.cancelledAfter =
        (entry.result, ⟨some s', j'⟩) ∧
      (watched ⟨some s, j⟩).analyze engine.recording a.request a.cancelledBefore
        a.cancelledAfter = (entry.result, ⟨some (s'.watched entry.events), j'⟩) ∧
      entry.Tells a := by
  cases hbefore : a.cancelledBefore with
  | true =>
    refine ⟨s, j, ⟨.error .cancelled, []⟩, rfl, rfl, ?_⟩
    simp [Entry.Tells, hbefore]
  | false =>
    obtain ⟨events, hfollows, hexchange⟩ := Sandbox.analyze_recording engine a.request.code
      a.request.options.mask s [] j
    have hrecorded := analyze_of_open engine.recording (s.watched []) j a.request a.cancelledAfter
    rw [hfollows] at hrecorded
    refine ⟨_, _, ⟨_, events⟩, analyze_of_open engine s j a.request a.cancelledAfter, hrecorded, ?_⟩
    simp only [Entry.Tells, hbefore, Bool.false_eq_true, if_false]
    exact ⟨_, hexchange, rfl⟩

/-- Recording changes no answer. -/
theorem history_results (engine : Engine σ) (s : Sandbox σ) (j : Journal)
    (attempts : List Attempt) :
    (history engine ⟨some s, j⟩ attempts).map (·.result) = answers engine ⟨some s, j⟩ attempts := by
  induction attempts generalizing s j with
  | nil => rfl
  | cons a rest ih =>
    obtain ⟨s', j', entry, hplain, hwatched, -⟩ := analyze_watched engine s j a
    rw [history, answers, hplain, hwatched]
    exact congrArg (entry.result :: ·) (ih s' j')

/-- Every entry tells about its request. -/
theorem history_tells (engine : Engine σ) (s : Sandbox σ) (j : Journal) (attempts : List Attempt) :
    List.Forall₂ (fun a entry => Entry.Tells a entry) attempts
      (history engine ⟨some s, j⟩ attempts) := by
  induction attempts generalizing s j with
  | nil => exact .nil
  | cons a rest ih =>
    obtain ⟨s', j', entry, -, hwatched, htells⟩ := analyze_watched engine s j a
    rw [history, hwatched]
    exact .cons htells (ih s' j')

end Handle

/-- What may lie between the allocation of a buffer and its release: nothing, an analysis, or an
analysis and the release of its result with the length that stands in front of it. -/
inductive Between : List Event → Prop where
  | nothing : Between []
  | analysis {p length mask : UInt32} {answer : Outcome UInt32} {m m' : LinearMemory} :
    Between [⟨.analyze p length mask answer, m, m'⟩]
  | result {p length mask r : UInt32} {freed : Outcome Unit} {m m' m'' : LinearMemory} :
    Between [⟨.analyze p length mask (.returned r), m, m'⟩,
      ⟨.dealloc r (4 + m'.wordAt r.toNat).toUInt32 freed, m', m''⟩]

/-- The next call, if there is one, asks for a buffer. -/
def Fresh (events : List Event) : Prop :=
  ∀ e ∈ events.head?, ∃ size answer, e.call = .alloc size answer

/-- Every buffer that the engine gave is given back once, with its own address and size, and before
the next one is asked for. -/
def Balanced (events : List Event) : Prop :=
  ∀ past future size p m m',
    events = past ++ ⟨.alloc size (.returned p), m, m'⟩ :: future → p ≠ 0 →
    ∃ between freed m₁ m₂ rest, future = between ++ ⟨.dealloc p size freed, m₁, m₂⟩ :: rest ∧
      Between between ∧ Fresh rest

/-- A buffer for the code, an analysis with a result, and the release of both. -/
def ReleasesResult (events : List Event) : Prop :=
  ∃ size p mask r resultFreed freed m₀ m₁ m₂ m₃ m₄ m₅,
    events = [⟨.alloc size (.returned p), m₀, m₁⟩, ⟨.analyze p size mask (.returned r), m₂, m₃⟩,
      ⟨.dealloc r (4 + m₃.wordAt r.toNat).toUInt32 resultFreed, m₃, m₄⟩,
      ⟨.dealloc p size freed, m₄, m₅⟩]

/-- Calls that ask for no buffer leave the balance as it is. -/
theorem Balanced.cons_other {e : Event} {events : List Event}
    (hother : ∀ size answer, e.call ≠ .alloc size answer) (hrest : Balanced events) :
    Balanced (e :: events) := by
  intro past future size p m m' hsplit hp
  cases past with
  | nil =>
    obtain ⟨rfl, -⟩ := List.cons.inj hsplit
    exact absurd rfl (hother size (.returned p))
  | cons first past => exact hrest past future size p m m' (List.cons.inj hsplit).2 hp

/-- An analysis leaves the balance as it is. -/
theorem Balanced.cons_analyze {p length mask : UInt32} {answer : Outcome UInt32}
    {m m' : LinearMemory} {events : List Event} (hrest : Balanced events) :
    Balanced (⟨.analyze p length mask answer, m, m'⟩ :: events) :=
  Balanced.cons_other (by simp) hrest

/-- A release leaves the balance as it is. -/
theorem Balanced.cons_dealloc {p size : UInt32} {freed : Outcome Unit} {m m' : LinearMemory}
    {events : List Event} (hrest : Balanced events) :
    Balanced (⟨.dealloc p size freed, m, m'⟩ :: events) :=
  Balanced.cons_other (by simp) hrest

/-- A buffer that is given back in its turn keeps the balance. -/
theorem Balanced.cons_alloc {size : UInt32} {answer : Outcome UInt32} {m m' : LinearMemory}
    {events : List Event} (hrest : Balanced events)
    (hreleased : ∀ p, answer = .returned p → p ≠ 0 → ∃ between freed m₁ m₂ rest,
      events = between ++ ⟨.dealloc p size freed, m₁, m₂⟩ :: rest ∧ Between between ∧ Fresh rest) :
    Balanced (⟨.alloc size answer, m, m'⟩ :: events) := by
  intro past future size' p n n' hsplit hp
  cases past with
  | nil =>
    obtain ⟨hevent, rfl⟩ := List.cons.inj hsplit
    injection hevent with hcall hbefore hafter
    injection hcall with hsize hanswer
    subst hsize
    exact hreleased p hanswer hp
  | cons first past => exact hrest past future size' p n n' (List.cons.inj hsplit).2 hp

/-- An exchange before a balanced history is balanced, and starts by asking for a buffer if it
makes a call at all. -/
theorem Exchange.balanced {code : Bytes} {mask : UInt32} {events rest : List Event}
    {result : Except Error Bytes} (hexchange : Exchange code mask events result)
    (hrest : Balanced rest) (hfresh : Fresh rest) :
    Balanced (events ++ rest) ∧ Fresh (events ++ rest) := by
  cases hexchange with
  | unasked => exact ⟨hrest, hfresh⟩
  | unallocated hcode hanswer =>
    refine ⟨hrest.cons_alloc fun p hp hzero => ?_, by simp [Fresh]⟩
    rcases hanswer with rfl | rfl
    · cases hp
    · exact absurd (Outcome.returned.inj hp).symm hzero
  | unwritten =>
    refine ⟨hrest.cons_dealloc.cons_alloc fun q hq _ => ?_, by simp [Fresh]⟩
    cases hq
    exact ⟨[], _, _, _, rest, rfl, .nothing, hfresh⟩
  | unreported =>
    refine ⟨hrest.cons_dealloc.cons_analyze.cons_alloc fun q hq _ => ?_, by simp [Fresh]⟩
    cases hq
    exact ⟨[_], _, _, _, rest, rfl, .analysis, hfresh⟩
  | reported =>
    refine ⟨hrest.cons_dealloc.cons_dealloc.cons_analyze.cons_alloc fun q hq _ => ?_,
      by simp [Fresh]⟩
    cases hq
    exact ⟨[_, _], _, _, _, rest, rfl, .result, hfresh⟩

/-- An analysis that succeeds gives its result back. -/
theorem Exchange.releasesResult {code bytes : Bytes} {mask : UInt32} {events : List Event}
    (hexchange : Exchange code mask events (.ok bytes)) : ReleasesResult events := by
  cases hexchange with
  | reported => exact ⟨_, _, _, _, _, _, _, _, _, _, _, _, rfl⟩

/-- A request that is answered with a payload has given its result back. -/
theorem Entry.Tells.releasesResult {a : Attempt} {entry : Entry} {payload : Bytes}
    (htells : Entry.Tells a entry) (hok : entry.result = .ok payload) :
    ReleasesResult entry.events := by
  unfold Entry.Tells at htells
  rw [hok] at htells
  split at htells
  · cases htells.2
  · obtain ⟨result, hexchange, hresult⟩ := htells
    cases result with
    | error e => cases hresult
    | ok bytes => exact hexchange.releasesResult

namespace Handle

/-- The calls of a whole history are balanced. -/
theorem history_balanced (engine : Engine σ) (s : Sandbox σ) (j : Journal)
    (attempts : List Attempt) :
    Balanced ((history engine ⟨some s, j⟩ attempts).flatMap (·.events)) ∧
      Fresh ((history engine ⟨some s, j⟩ attempts).flatMap (·.events)) := by
  induction attempts generalizing s j with
  | nil =>
    refine ⟨?_, by simp [Fresh, history]⟩
    intro past future size p m m' hsplit
    simp [history] at hsplit
  | cons a rest ih =>
    obtain ⟨s', j', entry, -, hwatched, htells⟩ := analyze_watched engine s j a
    obtain ⟨hbalanced, hfresh⟩ := ih s' j'
    rw [history, hwatched, List.flatMap_cons]
    change Balanced (entry.events ++ _) ∧ Fresh (entry.events ++ _)
    by_cases hbefore : a.cancelledBefore
    · rw [Entry.Tells, if_pos hbefore] at htells
      rw [htells.1]
      exact ⟨hbalanced, hfresh⟩
    · rw [Entry.Tells, if_neg hbefore] at htells
      obtain ⟨result, hexchange, -⟩ := htells
      exact hexchange.balanced hbalanced hfresh

/-- Over any sequence of requests on an open handle, each request that reaches the sandbox makes the
calls of one exchange, an answer with a payload comes with the release of its result, and every
buffer that the engine gave is given back before the next one is asked for. -/
theorem history_exchanges (engine : Engine σ) (s : Sandbox σ) (j : Journal)
    (attempts : List Attempt) :
    (history engine ⟨some s, j⟩ attempts).map (·.result) =
        answers engine ⟨some s, j⟩ attempts ∧
      List.Forall₂ (fun a entry => Entry.Tells a entry ∧
          ∀ payload, entry.result = .ok payload → ReleasesResult entry.events)
        attempts (history engine ⟨some s, j⟩ attempts) ∧
      Balanced ((history engine ⟨some s, j⟩ attempts).flatMap (·.events)) := by
  refine ⟨history_results engine s j attempts, ?_, (history_balanced engine s j attempts).1⟩
  exact (history_tells engine s j attempts).imp fun a entry htells =>
    ⟨htells, fun payload hok => htells.releasesResult hok⟩

end Handle

end EngineHost
