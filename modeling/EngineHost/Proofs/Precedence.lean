import EngineHost.Session
import EngineHost.Proofs.Halves
import EngineHost.Proofs.History

/-!
# What comes first

Several things can keep a request from its result: its caller may have given up before it or by its
end, the handle may be closed, the analysis may fail, and the payload may be no contract. More than
one of them may be the case at once, and at any point of the life of a handle. Which of them is
reported is always decided in the same order, and what is refused leaves no trace.
-/

namespace EngineHost

variable {σ : Type}

/-- What is done on a handle. -/
inductive Action where
  /-- Analyzes and decodes. -/
  | analyze (attempt : Attempt)
  /-- Analyzes. -/
  | analyzeRaw (attempt : Attempt)
  | close
  /-- Sets the counters back. -/
  | reset

namespace Action

/-- Whether it is a request whose caller has given up before. -/
def cancelledBefore : Action → Bool
  | .analyze a | .analyzeRaw a => a.cancelledBefore
  | .close | .reset => false

end Action

/-- What a request is told, if `own` is what the sandbox answers and `read` is what is made of a
payload. -/
def Attempt.outcome {α : Type} (a : Attempt) (closed : Bool) (own : Except Error Bytes)
    (read : Bytes → Except Error α) : Except Error α :=
  if a.cancelledBefore then .error .cancelled
  else if closed then .error .closed
  else
    match own with
    | .error e => .error e
    | .ok payload => if a.cancelledAfter then .error .cancelled else read payload

namespace Handle

/-- Does something on a handle. -/
def act (engine : Engine σ) (h : Handle σ) : Action → Answer × Handle σ
  | .analyze a =>
    let (result, after) := h.analyze engine a.request a.cancelledBefore a.cancelledAfter
    (.contract (result.bind decodePayload), after)
  | .analyzeRaw a =>
    let (result, after) := h.analyze engine a.request a.cancelledBefore a.cancelledAfter
    (.raw result, after)
  | .close =>
    let (result, after) := h.close
    (.done result, after)
  | .reset => (.done (.ok ()), { h with journal := h.journal.reset })

/-- The handle after actions, one after the other. -/
def perform (engine : Engine σ) (h : Handle σ) (actions : List Action) : Handle σ :=
  actions.foldl (fun h action => (h.act engine action).2) h

end Handle

namespace Sandbox

/-- What an action makes of the sandbox of an open handle. -/
def after (engine : Engine σ) (s : Sandbox σ) : Action → Sandbox σ
  | .analyze a | .analyzeRaw a =>
    if a.cancelledBefore then s
    else (analyze engine a.request.code a.request.options.mask s {}).2.1
  | .close | .reset => s

/-- An analysis leaves the same sandbox, whatever has been noted before. -/
theorem analyze_sandbox (engine : Engine σ) (code : Bytes) (mask : UInt32) (s : Sandbox σ)
    (j j' : Journal) :
    (analyze engine code mask s j).2.1 = (analyze engine code mask s j').2.1 := by
  unfold analyze
  rw [begin_eq engine code s j j']
  rcases begin engine code s j' with ⟨e | input, started, noted⟩
  · rfl
  · exact complete_sandbox engine input code mask started _ noted

end Sandbox

namespace Handle

/-! ### One action -/

/-- A caller that has given up before leaves no trace. -/
theorem analyze_of_cancelled (engine : Engine σ) (h : Handle σ) (request : Request)
    (after : Bool) : h.analyze engine request true after = (.error .cancelled, h) := rfl

/-- A request on a closed handle leaves no trace. -/
theorem analyze_of_closed (engine : Engine σ) {h : Handle σ} (hclosed : h.sandbox = none)
    (request : Request) (before after : Bool) :
    h.analyze engine request before after =
      (if before then .error .cancelled else .error .closed, h) := by
  obtain ⟨sandbox, j⟩ := h
  obtain rfl : sandbox = none := hclosed
  cases before <;> rfl

/-- What a request on an open handle is told, and what it leaves of the sandbox. -/
theorem analyze_of_some (engine : Engine σ) {h : Handle σ} {s : Sandbox σ}
    (hopen : h.sandbox = some s) (a : Attempt) :
    let own := (Sandbox.analyze engine a.request.code a.request.options.mask s h.journal).1
    let called := h.analyze engine a.request a.cancelledBefore a.cancelledAfter
    called.1 = a.outcome false own .ok ∧
      called.2.sandbox = some (s.after engine (.analyzeRaw a)) := by
  obtain ⟨sandbox, j⟩ := h
  obtain rfl : sandbox = some s := hopen
  cases hbefore : a.cancelledBefore with
  | true => simp [analyze_of_cancelled, Attempt.outcome, Sandbox.after, hbefore]
  | false =>
    have hcalled := analyze_of_open engine s j a.request a.cancelledAfter
    dsimp only at hcalled ⊢
    rw [hcalled]
    constructor
    · simp only [Attempt.outcome, hbefore, Bool.false_eq_true, if_false]
      cases (Sandbox.analyze engine a.request.code a.request.options.mask s j).1 <;> rfl
    · simp only [Sandbox.after, hbefore, Bool.false_eq_true, if_false]
      rw [Sandbox.analyze_sandbox engine a.request.code a.request.options.mask s j {}]

/-- The calls that are logged on a handle before any is made. -/
@[simp] theorem log_watched (h : Handle σ) : h.watched.log = [] := by
  obtain ⟨_ | s, j⟩ := h <;> rfl

section Outcome

variable (engine : Engine σ) {h : Handle σ} {s : Sandbox σ} {closed : Bool}

end Outcome

/-- What is refused leaves the handle as it is, and makes no call of the engine. -/
theorem act_of_refused (engine : Engine σ) {h : Handle σ} {action : Action}
    (hrefused : action.cancelledBefore = true ∨ h.sandbox = none ∧ action ≠ .reset) :
    (h.act engine action).2 = h := by
  cases action with
  | analyze a | analyzeRaw a =>
    rcases hrefused with hbefore | ⟨hclosed, -⟩
    · have hbefore : a.cancelledBefore = true := hbefore
      simp [act, hbefore, analyze_of_cancelled]
    · simp [act, analyze_of_closed engine hclosed]
  | close =>
    rcases hrefused with hbefore | ⟨hclosed, -⟩
    · cases hbefore
    · simp [act, close, isClosed, hclosed]
  | reset =>
    rcases hrefused with hbefore | ⟨-, hreset⟩
    · cases hbefore
    · exact absurd rfl hreset

end Handle

end EngineHost
