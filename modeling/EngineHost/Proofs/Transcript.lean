import EngineHost.Proofs.Precedence

/-!
# Transcripts of sessions

The transcript of a session tells for each operation what was answered and what the counters were
afterwards. Two sessions whose states are related, and stay related whatever is done in both, have
the same transcript. So have a session on a handle, and the session on the recording engine that
goes with it.
-/

namespace EngineHost

variable {σ τ : Type}

/-- Whether an operation can be done on a handle as well as on a pool. A batch can, call by call. -/
def Operation.common : Operation → Bool
  | .analyze _ | .analyzeRaw _ | .analyzeMany _ | .cancel _ | .token _ | .close | .reset => true
  | .nest _ | .isClosed | .instantiate | .describe _ => false

/-- An operation as a handle can do it: one call after the other. -/
def Operation.singles : Operation → List Operation
  | .analyzeMany calls => calls.map .analyze
  | operation => [operation]

/-- The answers to single calls that an answer consists of. -/
def Answer.singles : Answer → List Answer
  | .contracts results => results.map .contract
  | answer => [answer]

/-- What is seen of an operation. -/
structure Display where
  /-- The answers. -/
  answers : List Answer
  /-- The counters afterwards. -/
  metrics : Metrics

namespace Session

/-- Operations one after the other, on the first handle if the session works on handles. -/
def stepAll (s : Session σ) : List Operation → Option (List Answer × Session σ)
  | [] => some ([], s)
  | operation :: rest =>
    match s.step 0 operation with
    | none => none
    | some (answer, s) =>
      match stepAll s rest with
      | none => none
      | some (answers, s) => some (answer :: answers, s)

/-- An operation and what is seen of it. On a handle a batch is done call by call. -/
def serve (s : Session σ) (operation : Operation) : Option (Display × Session σ) :=
  match s.target with
  | .handles _ =>
    match s.stepAll operation.singles with
    | none => none
    | some (answers, s) => some (⟨answers, (s.journal 0).metrics⟩, s)
  | .pool _ | .analyzer _ =>
    match s.step 0 operation with
    | none => none
    | some (answer, s) => some (⟨answer.singles, (s.journal 0).metrics⟩, s)

/-- What is seen of operations, one after the other, and the session after them. -/
def transcript (s : Session σ) : List Operation → Option (List Display × Session σ)
  | [] => some ([], s)
  | operation :: rest =>
    match s.serve operation with
    | none => none
    | some (display, s) =>
      match transcript s rest with
      | none => none
      | some (displays, s) => some (display :: displays, s)

/-- Related sessions answer an operation alike, and are related afterwards. -/
def AgreeOn (R : Session σ → Session τ → Prop) (operation : Operation) : Prop :=
  ∀ s t, R s t → ∃ display s' t',
    s.serve operation = some (display, s') ∧ t.serve operation = some (display, t') ∧ R s' t'

/-- Sessions that are related and agree on every common operation have the same transcript. -/
theorem transcript_agree {R : Session σ → Session τ → Prop}
    (hagree : ∀ operation, operation.common = true → AgreeOn R operation)
    {operations : List Operation}
    (hcommon : ∀ operation ∈ operations, operation.common = true) {s : Session σ} {t : Session τ}
    (hrelated : R s t) :
    ∃ displays s' t', s.transcript operations = some (displays, s') ∧
      t.transcript operations = some (displays, t') ∧ R s' t' := by
  induction operations generalizing s t with
  | nil => exact ⟨[], s, t, rfl, rfl, hrelated⟩
  | cons operation rest ih =>
    obtain ⟨display, s', t', hs, ht, hnext⟩ :=
      hagree operation (hcommon operation (by simp)) s t hrelated
    obtain ⟨displays, s'', t'', hs', ht', hlast⟩ :=
      ih (fun later hlater => hcommon later (by simp [hlater])) hnext
    refine ⟨display :: displays, s'', t'', ?_, ?_, hlast⟩
    · rw [transcript, hs]
      simp only [hs']
    · rw [transcript, ht]
      simp only [ht']

/-- Sessions that are related and agree on each of some operations agree on them one after the
other. -/
theorem stepAll_agree {R : Session σ → Session τ → Prop} {operations : List Operation}
    (hagree : ∀ operation ∈ operations, ∀ s t, R s t → ∃ answer s' t',
      s.step 0 operation = some (answer, s') ∧ t.step 0 operation = some (answer, t') ∧ R s' t')
    {s : Session σ} {t : Session τ} (hrelated : R s t) :
    ∃ answers s' t', s.stepAll operations = some (answers, s') ∧
      t.stepAll operations = some (answers, t') ∧ R s' t' := by
  induction operations generalizing s t with
  | nil => exact ⟨[], s, t, rfl, rfl, hrelated⟩
  | cons operation rest ih =>
    obtain ⟨answer, s', t', hs, ht, hnext⟩ := hagree operation (by simp) s t hrelated
    obtain ⟨answers, s'', t'', hs', ht', hlast⟩ :=
      ih (fun later hlater => hagree later (by simp [hlater])) hnext
    refine ⟨answer :: answers, s'', t'', ?_, ?_, hlast⟩
    · rw [stepAll, hs]
      simp only [hs']
    · rw [stepAll, ht]
      simp only [ht']

end Session

/-! ### Calls within a session -/

/-- What becomes of the first half of an analysis is the same on the recording engine. -/
theorem Sandbox.begin_recording (engine : Engine σ) (code : Bytes) (s : Sandbox (σ × List Event))
    (j : Journal) :
    (begin engine.recording code s j).1 = (begin engine code ⟨s.memory, s.state.1⟩ j).1 := by
  unfold begin
  simp only [recording_alloc]
  rcases engine.alloc code.length.toUInt32 ⟨s.memory, s.state.1⟩ with ⟨input | _, after⟩
  · dsimp only
    split_ifs <;> rfl
  · dsimp only
    split_ifs <;> rfl

namespace Handle

/-- A call within a session is a call whose caller has given up before if the token says so, and by
its end if the token says so then. -/
theorem run_eq (engine : Engine σ) (h : Handle σ) (tokens : Tokens) {call : Call}
    {request : Request} (hrequest : call.request = .ok request) :
    let called := h.analyze engine request (tokens.stops call) ((tokens.afterBegin call).stops call)
    h.run engine tokens call = (called.1, called.2,
      if (h.begin engine request (tokens.stops call)).1.isOk then tokens.afterBegin call
      else tokens) := by
  unfold run analyze
  rw [hrequest]
  dsimp only
  rcases h.begin engine request (tokens.stops call) with ⟨e | input, started⟩ <;> rfl

/-- A request that could not be made leaves no trace. -/
theorem run_of_error (engine : Engine σ) (h : Handle σ) (tokens : Tokens) {call : Call} {e : Error}
    (hrequest : call.request = .error e) : h.run engine tokens call = (.error e, h, tokens) := by
  rw [run, hrequest]

/-- Whether a call begins is the same on the recording engine. -/
theorem begin_unwatched (engine : Engine σ) (h : Handle (σ × List Event)) (request : Request)
    (cancelled : Bool) :
    (h.begin engine.recording request cancelled).1 =
      (h.unwatched.begin engine request cancelled).1 := by
  obtain ⟨_ | s, j⟩ := h
  · cases cancelled <;> rfl
  · cases cancelled with
    | true => rfl
    | false =>
      have hrecorded := (begin_of_open engine.recording s j request).1
      have hplain := (begin_of_open engine ⟨s.memory, s.state.1⟩ j request).1
      rw [hrecorded, Sandbox.begin_recording]
      exact hplain.symm

/-- A call on the recording engine is what it is on the engine itself. -/
theorem analyze_unwatched (engine : Engine σ) (h : Handle (σ × List Event)) (request : Request)
    (before after : Bool) :
    let recorded := h.analyze engine.recording request before after
    h.unwatched.analyze engine request before after = (recorded.1, recorded.2.unwatched) := by
  obtain ⟨_ | s, j⟩ := h
  · cases before <;> rfl
  · cases before with
    | true => rfl
    | false =>
      obtain ⟨events, hfollows, -⟩ := Sandbox.analyze_recording engine request.code
        request.options.mask ⟨s.memory, s.state.1⟩ s.state.2 j
      have hrecorded := analyze_of_open engine.recording s j request after
      have hplain := analyze_of_open engine ⟨s.memory, s.state.1⟩ j request after
      rw [show Sandbox.analyze engine.recording request.code request.options.mask s j = _ from
        hfollows] at hrecorded
      dsimp only at hrecorded hplain ⊢
      rw [hrecorded]
      exact hplain

/-- A call within a session on the recording engine is what it is on the engine itself. -/
theorem run_unwatched (engine : Engine σ) (h : Handle (σ × List Event)) (tokens : Tokens)
    (call : Call) :
    let recorded := h.run engine.recording tokens call
    h.unwatched.run engine tokens call = (recorded.1, recorded.2.1.unwatched, recorded.2.2) := by
  cases hrequest : call.request with
  | error e => rw [run_of_error engine _ _ hrequest, run_of_error engine.recording _ _ hrequest]
  | ok request =>
    rw [run_eq engine _ _ hrequest, run_eq engine.recording _ _ hrequest, begin_unwatched,
      analyze_unwatched]

end Handle

/-! ### Sessions on the recording engine -/

namespace Blueprint

/-- The blueprint of the recording engine. -/
def recording (b : Blueprint σ) : Blueprint (σ × List Event) where
  start := b.start.map (·.watched [])
  memory := b.memory
  alloc := b.alloc
  dealloc := b.dealloc
  analyze := b.analyze
  engine := b.engine.recording

/-- What the recording engine is opened with. -/
theorem instantiate_recording (b : Blueprint σ) :
    b.recording.instantiate = b.instantiate.map (·.watched []) := by
  obtain ⟨start, memory, alloc, dealloc, analyze, engine⟩ := b
  unfold instantiate recording
  cases start with
  | none => rfl
  | some s =>
    cases memory with
    | false => rfl
    | true =>
      dsimp only [Option.map_some]
      cases checkExport allocName alloc <;> cases checkExport deallocName dealloc <;>
        cases checkExport analyzeName analyze <;> rfl

end Blueprint

namespace Session

section Handles

variable (b : Blueprint σ) (h : Handle σ) (tokens : Tokens) (call : Call)

/-- A session answers a request for a contract as its handle does, with the payload decoded. -/
theorem step_analyze :
    let called := h.run b.engine tokens call
    step ⟨b, .handles [h], tokens⟩ 0 (.analyze call) =
      some (.contract (called.1.bind decodePayload), ⟨b, .handles [called.2.1], called.2.2⟩) := rfl

/-- A session answers a request for a payload as its handle does. -/
theorem step_analyzeRaw :
    let called := h.run b.engine tokens call
    step ⟨b, .handles [h], tokens⟩ 0 (.analyzeRaw call) =
      some (.raw called.1, ⟨b, .handles [called.2.1], called.2.2⟩) := rfl

end Handles

/-- A session on a handle, and the session on the recording engine that goes with it. -/
def Recorded (b : Blueprint σ) (s : Session σ) (t : Session (σ × List Event)) : Prop :=
  ∃ h tokens, s = ⟨b, .handles [h.unwatched], tokens⟩ ∧ t = ⟨b.recording, .handles [h], tokens⟩

/-- Recording changes no answer to an operation on a handle. -/
theorem Recorded.step {b : Blueprint σ} {s : Session σ} {t : Session (σ × List Event)}
    (hrecorded : Recorded b s t) {operation : Operation} (hcommon : operation.common = true)
    (hsingle : ∀ calls, operation ≠ .analyzeMany calls) :
    ∃ answer s' t', s.step 0 operation = some (answer, s') ∧
      t.step 0 operation = some (answer, t') ∧ Recorded b s' t' := by
  obtain ⟨h, tokens, rfl, rfl⟩ := hrecorded
  have hrun := fun call => h.run_unwatched b.engine tokens call
  cases operation with
  | analyze call =>
    have hplain := step_analyze b h.unwatched tokens call
    rw [hrun] at hplain
    exact ⟨_, _, _, hplain, step_analyze b.recording h tokens call, _, _, rfl, rfl⟩
  | analyzeRaw call =>
    have hplain := step_analyzeRaw b h.unwatched tokens call
    rw [hrun] at hplain
    exact ⟨_, _, _, hplain, step_analyzeRaw b.recording h tokens call, _, _, rfl, rfl⟩
  | analyzeMany calls => exact absurd rfl (hsingle calls)
  | cancel token => exact ⟨_, _, _, rfl, rfl, h, tokens.cancel token, rfl, rfl⟩
  | token token => exact ⟨_, _, _, rfl, rfl, h, tokens, rfl, rfl⟩
  | close =>
    obtain ⟨_ | sandbox, j⟩ := h
    · exact ⟨_, _, _, rfl, rfl, ⟨none, j⟩, tokens, rfl, rfl⟩
    · exact ⟨_, _, _, rfl, rfl, ⟨none, j⟩, tokens, rfl, rfl⟩
  | reset => exact ⟨_, _, _, rfl, rfl, { h with journal := h.journal.reset }, tokens, rfl, rfl⟩
  | nest | isClosed | instantiate | describe => cases hcommon

/-- Recording changes nothing that is seen of an operation on a handle. -/
theorem Recorded.agreeOn (b : Blueprint σ) {operation : Operation}
    (hcommon : operation.common = true) : AgreeOn (Recorded b) operation := by
  intro s t hrecorded
  have hsingles : ∀ single ∈ operation.singles, ∀ s t, Recorded b s t → ∃ answer s' t',
      s.step 0 single = some (answer, s') ∧ t.step 0 single = some (answer, t') ∧
        Recorded b s' t' := by
    intro single hsingle s t hrecorded
    cases operation with
    | analyzeMany calls =>
      obtain ⟨call, -, rfl⟩ := List.mem_map.mp hsingle
      exact hrecorded.step rfl (by simp)
    | analyze | analyzeRaw | cancel | token | close | reset =>
      obtain rfl := List.mem_singleton.mp hsingle
      exact hrecorded.step rfl (by simp)
    | nest | isClosed | instantiate | describe => cases hcommon
  obtain ⟨answers, s', t', hs, ht, hnext⟩ := stepAll_agree hsingles hrecorded
  obtain ⟨h, tokens, rfl, rfl⟩ := hrecorded
  obtain ⟨h', tokens', rfl, rfl⟩ := hnext
  refine ⟨⟨answers, h'.journal.metrics⟩, _, _, ?_, ?_, h', tokens', rfl, rfl⟩
  · simp only [serve, hs]
    rfl
  · simp only [serve, ht]
    rfl

end Session

end EngineHost
