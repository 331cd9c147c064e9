import EngineHost.Proofs.Accounts
import EngineHost.Proofs.Pool.Alone
import EngineHost.Proofs.Transcript

/-!
# Pools, one call at a time

While no two calls overlap, the first handle of a pool serves them all: each call finds all locks
free. Whoever sees only answers and counters cannot tell such a pool, nor an analyzer, from a single
handle.
-/

namespace EngineHost

variable {σ : Type}

/-! ### One call -/

namespace Handle

/-- A call within a session neither opens nor closes a handle. -/
theorem isSome_run (engine : Engine σ) (h : Handle σ) (tokens : Tokens) (call : Call) :
    (h.run engine tokens call).2.1.sandbox.isSome = h.sandbox.isSome := by
  cases hrequest : call.request with
  | error e => rw [run_of_error engine h tokens hrequest]
  | ok request =>
    rw [run_eq engine h tokens hrequest]
    cases hopen : h.sandbox with
    | none => rw [analyze_of_closed engine hopen, hopen]
    | some s =>
      rw [(analyze_of_some engine hopen
        ⟨request, tokens.stops call, (tokens.afterBegin call).stops call⟩).2]
      rfl

/-- A call within a session on a closed handle does not depend on what has been noted, and leaves no
trace. -/
theorem run_of_closed (engine : Engine σ) (j j' : Journal) (tokens : Tokens) (call : Call) :
    let called := run engine ⟨none, j⟩ tokens call
    run engine ⟨none, j'⟩ tokens call = (called.1, ⟨none, j'⟩, called.2.2) ∧
      called.2.1 = ⟨none, j⟩ := by
  unfold run
  cases call.request with
  | error e => exact ⟨rfl, rfl⟩
  | ok request =>
    dsimp only
    cases tokens.stops call <;> exact ⟨rfl, rfl⟩

/-- A call without a token is one whose caller does not give up. -/
theorem run_of_no_token (engine : Engine σ) (h : Handle σ) (tokens : Tokens) (request : Request) :
    h.run engine tokens { request := .ok request } =
      ((h.analyze engine request false false).1, (h.analyze engine request false false).2,
        tokens) := by
  unfold run analyze
  dsimp only [Tokens.stops, Tokens.afterBegin, Option.any_none]
  rcases h.begin engine request false with ⟨e | input, started⟩ <;> rfl

/-- What a new handle starts with. -/
theorem ofBlueprint_eq_ok {b : Blueprint σ} {fresh : Sandbox σ}
    (hfresh : b.instantiate = .ok fresh) : ofBlueprint b = .ok ⟨some fresh, {}⟩ := by
  rw [ofBlueprint, hfresh]
  rfl

end Handle

namespace Pool

/-- The first handle of a pool is like the handle `h`. The others are as they were opened, and are
closed when it is. -/
structure Mirrors (fresh : Sandbox σ) (others : Nat) (p : Pool σ) (h : Handle σ) : Prop where
  seats : p.seats = h.sandbox :: List.replicate others (h.sandbox.map fun _ => fresh)
  metrics : p.journal.metrics = h.journal.metrics
  /-- The warnings can differ once both are closed. -/
  journal : h.sandbox.isSome → p.journal = h.journal

section Mirrors

variable {fresh : Sandbox σ} {others : Nat} {p : Pool σ} {h : Handle σ}

/-- The first handle has the sandbox of the handle it is like. -/
theorem Mirrors.seat_zero (hmirrors : p.Mirrors fresh others h) : p.seat 0 = h.sandbox := by
  rw [seat, hmirrors.seats]
  rfl

/-- If what has become of the first handle of a pool is what has become of the single handle, and
nothing has been done on the others, the pool mirrors the handle again. -/
theorem Mirrors.of_first (hmirrors : p.Mirrors fresh others h) {p' : Pool σ} {h' : Handle σ}
    (hseats : p'.seats = p.seats.set 0 h'.sandbox)
    (hsome : h'.sandbox.isSome = h.sandbox.isSome)
    (hmetrics : p'.journal.metrics = h'.journal.metrics)
    (hjournal : h'.sandbox.isSome → p'.journal = h'.journal) : p'.Mirrors fresh others h' where
  seats := by
    have hfresh : (h'.sandbox.map fun _ => fresh) = h.sandbox.map fun _ => fresh := by
      cases hs : h.sandbox <;> cases hs' : h'.sandbox <;> simp_all
    rw [hseats, hmirrors.seats, List.set_cons_zero, hfresh]
  metrics := hmetrics
  journal := hjournal

/-- A request that could not be made leaves a pool as it is. -/
theorem run_of_error (p : Pool σ) (engine : Engine σ) (tokens : Tokens) {call : Call} {e : Error}
    (hrequest : call.request = .error e) : p.run engine tokens call = (.error e, p, tokens) := by
  have hact : (fun h : Handle σ => (((h.run engine tokens call).1, (h.run engine tokens call).2.2),
      (h.run engine tokens call).2.1)) = fun h => ((.error e, tokens), h) := by
    funext h
    rw [h.run_of_error engine tokens hrequest]
  rw [run_eq, hact, onSeat_unchanged]

/-- A call within a session is a call on the pool, for a caller that gives up when its token says
so. -/
theorem run_analyze (p : Pool σ) (engine : Engine σ) (tokens : Tokens) {call : Call}
    {request : Request} (hrequest : call.request = .ok request) :
    p.analyze engine request (tokens.stops call) ((tokens.afterBegin call).stops call) =
      ((p.run engine tokens call).1, (p.run engine tokens call).2.1) := by
  have hrun := Handle.run_eq engine ⟨p.seat 0, p.journal⟩ tokens hrequest
  rw [run_eq, analyze_eq]
  simp only [onSeat, seat] at hrun ⊢
  simp only [hrun]

/-- A call takes the first handle, and goes there as it goes on a single one. -/
theorem Mirrors.run (hmirrors : p.Mirrors fresh others h) (engine : Engine σ) (tokens : Tokens)
    (call : Call) :
    let called := h.run engine tokens call
    ∃ p', p.run engine tokens call = (called.1, p', called.2.2) ∧
      p'.Mirrors fresh others called.2.1 := by
  intro called
  have hsome : called.2.1.sandbox.isSome = h.sandbox.isSome := h.isSome_run engine tokens call
  -- a call on the pool is a call on this handle
  obtain ⟨first, hfirst⟩ : ∃ first : Handle σ, first = ⟨p.seat 0, p.journal⟩ := ⟨_, rfl⟩
  have hrun : p.run engine tokens call = ((first.run engine tokens call).1,
      (p.run engine tokens call).2.1, (first.run engine tokens call).2.2) := by
    rw [hfirst, run_eq]
    rfl
  have hseats : (p.run engine tokens call).2.1.seats =
      p.seats.set 0 (first.run engine tokens call).2.1.sandbox := by
    rw [hfirst, run_eq]
    rfl
  have hjournal : (p.run engine tokens call).2.1.journal =
      (first.run engine tokens call).2.1.journal := by
    rw [hfirst, run_eq]
    rfl
  rw [hmirrors.seat_zero] at hfirst
  cases hopen : h.sandbox with
  | none =>
    obtain ⟨sandbox, j⟩ := h
    obtain rfl : sandbox = none := hopen
    obtain ⟨hcalled, hstill⟩ := Handle.run_of_closed engine j p.journal tokens call
    have hstill : called.2.1 = ⟨none, j⟩ := hstill
    rw [hfirst, hcalled] at hrun hseats hjournal
    refine ⟨_, hrun, hmirrors.of_first ?_ hsome ?_ ?_⟩
    · rw [hseats, hstill]
    · rw [hjournal, hstill]
      exact hmirrors.metrics
    · intro hisSome
      rw [hstill] at hisSome
      cases hisSome
  | some s =>
    obtain rfl : first = h := by
      rw [hfirst, hmirrors.journal (by simp [hopen])]
    refine ⟨_, hrun, hmirrors.of_first hseats hsome ?_ fun _ => hjournal⟩
    rw [hjournal]

/-- Closing open handles goes without error or warning. -/
theorem closeFrom_of_open {seats : List (Option (Sandbox σ))} (hopen : ∀ seat ∈ seats, seat.isSome)
    (index : Nat) (error? : Option Error) (j : Journal) :
    closeFrom index error? seats j = (error?, j) := by
  induction seats generalizing index with
  | nil => rfl
  | cons seat rest ih =>
    obtain ⟨s, rfl⟩ := Option.isSome_iff_exists.mp (hopen seat (by simp))
    exact ih (fun later hlater => hopen later (by simp [hlater])) (index + 1)

/-- The first error is the one that is reported. -/
theorem closeFrom_of_error (seats : List (Option (Sandbox σ))) (index : Nat) (e : Error)
    (j : Journal) : (closeFrom index (some e) seats j).1 = some e := by
  induction seats generalizing index j with
  | nil => rfl
  | cons seat rest ih =>
    cases seat with
    | none => exact ih (index + 1) (j.warn (.closeFailed index .closed))
    | some s => exact ih (index + 1) j

/-- Closing goes as it goes on a single handle. -/
theorem Mirrors.close (hmirrors : p.Mirrors fresh others h) :
    p.close.1 = h.close.1 ∧ p.close.2.Mirrors fresh others h.close.2 := by
  have hnone : h.close.2.sandbox = none := by
    cases hopen : h.sandbox <;> simp [Handle.close, Handle.isClosed, hopen]
  have hnoted : h.close.2.journal = h.journal := by
    cases hopen : h.sandbox <;> simp [Handle.close, Handle.isClosed, hopen]
  have hshut : p.close.2.Mirrors fresh others h.close.2 :=
    { seats := by
        rw [hnone]
        simp [Pool.close, hmirrors.seats]
      metrics := by
        rw [hnoted, ← hmirrors.metrics]
        exact closeFrom_metrics 0 none p.seats p.journal
      journal := by simp [hnone] }
  refine ⟨?_, hshut⟩
  cases hopen : h.sandbox with
  | none =>
    simp [Pool.close, Handle.close, Handle.isClosed, hopen, hmirrors.seats, closeFrom,
      closeFrom_of_error]
  | some s =>
    have hall : ∀ seat ∈ p.seats, seat.isSome := by
      intro seat hseat
      rw [hmirrors.seats, hopen] at hseat
      rcases List.mem_cons.mp hseat with rfl | hother
      · rfl
      · rw [List.eq_of_mem_replicate hother]
        rfl
    simp [Pool.close, Handle.close, Handle.isClosed, hopen, closeFrom_of_open hall]

/-- The two stay alike when both journals are reset. -/
theorem Mirrors.reset (hmirrors : p.Mirrors fresh others h) :
    Mirrors fresh others { p with journal := p.journal.reset }
      { h with journal := h.journal.reset } where
  seats := hmirrors.seats
  metrics := rfl
  journal := fun hopen => congrArg Journal.reset (hmirrors.journal hopen)

/-- A batch goes as its calls go on a single handle. -/
theorem Mirrors.runAll (hmirrors : p.Mirrors fresh others h) (b : Blueprint σ) (tokens : Tokens)
    (calls : List Call) :
    ∃ results p' h' tokens', p.runAll b.engine tokens calls = (results, p', tokens') ∧
      Session.stepAll ⟨b, .handles [h], tokens⟩ (calls.map .analyze) =
        some (results.map fun result => .contract (result.bind decodePayload),
          ⟨b, .handles [h'], tokens'⟩) ∧
      p'.Mirrors fresh others h' := by
  induction calls generalizing p h tokens with
  | nil => exact ⟨[], p, h, tokens, rfl, rfl, hmirrors⟩
  | cons call rest ih =>
    obtain ⟨next, hrun, hnext⟩ := hmirrors.run b.engine tokens call
    obtain ⟨results, p', h', tokens', hpool, hhandle, hlast⟩ :=
      ih hnext (h.run b.engine tokens call).2.2
    refine ⟨(h.run b.engine tokens call).1 :: results, p', h', tokens', ?_, ?_, hlast⟩
    · rw [Pool.runAll, hrun]
      dsimp only
      rw [hpool]
    · rw [List.map_cons, Session.stepAll, Session.step_analyze]
      dsimp only
      rw [hhandle]
      rfl

/-- What is logged on the handles of a pool whose first handle is like `h`. -/
theorem Mirrors.logs_eq {fresh : Sandbox σ} {p : Pool (σ × List Event)}
    {h : Handle (σ × List Event)} (hmirrors : p.Mirrors (fresh.watched []) others h) :
    p.logs = h.log :: List.replicate others [] := by
  rw [logs, hmirrors.seats, List.map_cons, List.map_replicate]
  cases hopen : h.sandbox <;> simp [Handle.log, hopen]

end Mirrors

end Pool

namespace Session

/-- A session on a handle, and one on a pool whose first handle is like it. -/
def Mirrored (b : Blueprint σ) (fresh : Sandbox σ) (others : Nat) (s t : Session σ) : Prop :=
  ∃ h p tokens, s = ⟨b, .handles [h], tokens⟩ ∧ t = ⟨b, .pool p, tokens⟩ ∧
    p.Mirrors fresh others h

section Mirrored

variable {b : Blueprint σ} {fresh : Sandbox σ} {others : Nat} {h h' : Handle σ} {p p' : Pool σ}
  {tokens tokens' : Tokens} {operation : Operation} {answer : Answer}

/-- What is seen of an operation is the same if the answers are, since the counters are. -/
theorem Mirrored.of_step
    (hpool : step ⟨b, .pool p, tokens⟩ 0 operation = some (answer, ⟨b, .pool p', tokens'⟩))
    (hhandle : stepAll ⟨b, .handles [h], tokens⟩ operation.singles =
      some (answer.singles, ⟨b, .handles [h'], tokens'⟩))
    (hmirrors : p'.Mirrors fresh others h') :
    ∃ display s' t', serve ⟨b, .handles [h], tokens⟩ operation = some (display, s') ∧
      serve ⟨b, .pool p, tokens⟩ operation = some (display, t') ∧
      Mirrored b fresh others s' t' := by
  refine ⟨⟨answer.singles, h'.journal.metrics⟩, _, _, ?_, ?_, h', p', tokens', rfl, rfl, hmirrors⟩
  · simp only [serve, hhandle]
    rfl
  · simp only [serve, hpool, ← hmirrors.metrics]
    rfl

/-- A session on a pool goes as on a single handle. -/
theorem Mirrored.agreeOn (hcommon : operation.common = true) :
    AgreeOn (Mirrored b fresh others) operation := by
  rintro _ _ ⟨h, p, tokens, rfl, rfl, hmirrors⟩
  cases operation with
  | analyze call =>
    obtain ⟨p', hrun, hnext⟩ := hmirrors.run b.engine tokens call
    have hpool : step ⟨b, .pool p, tokens⟩ 0 (.analyze call) =
        some (.contract ((h.run b.engine tokens call).1.bind decodePayload),
          ⟨b, .pool p', (h.run b.engine tokens call).2.2⟩) := by
      simp only [step, onPool, hrun, Option.map_some]
    exact Mirrored.of_step hpool rfl hnext
  | analyzeRaw call =>
    obtain ⟨p', hrun, hnext⟩ := hmirrors.run b.engine tokens call
    have hpool : step ⟨b, .pool p, tokens⟩ 0 (.analyzeRaw call) =
        some (.raw (h.run b.engine tokens call).1,
          ⟨b, .pool p', (h.run b.engine tokens call).2.2⟩) := by
      simp only [step, onPool, hrun, Option.map_some]
    exact Mirrored.of_step hpool rfl hnext
  | analyzeMany calls =>
    obtain ⟨results, p', h', tokens', hall, hhandle, hnext⟩ := hmirrors.runAll b tokens calls
    have hpool : step ⟨b, .pool p, tokens⟩ 0 (.analyzeMany calls) =
        some (.contracts (results.map (·.bind decodePayload)), ⟨b, .pool p', tokens'⟩) := by
      simp only [step, onPool, hall, Option.map_some]
    refine Mirrored.of_step hpool ?_ hnext
    rw [Operation.singles, hhandle, Answer.singles, List.map_map]
    rfl
  | cancel token => exact Mirrored.of_step rfl rfl hmirrors
  | token token => exact Mirrored.of_step rfl rfl hmirrors
  | close =>
    obtain ⟨hanswer, hnext⟩ := hmirrors.close
    have hpool : step ⟨b, .pool p, tokens⟩ 0 .close =
        some (.done p.close.1, ⟨b, .pool p.close.2, tokens⟩) := rfl
    rw [hanswer] at hpool
    exact Mirrored.of_step hpool rfl hnext
  | reset => exact Mirrored.of_step rfl rfl hmirrors.reset
  | nest | isClosed | instantiate | describe => cases hcommon

end Mirrored

/-- Sessions on a pool, and on the analyzer that has it. -/
def SamePool (b : Blueprint σ) (digest : Bytes) (s t : Session σ) : Prop :=
  ∃ p tokens, s = ⟨b, .pool p, tokens⟩ ∧ t = ⟨b, .analyzer ⟨b.engine, p, digest⟩, tokens⟩

/-- A session on an analyzer goes as on its pool. -/
theorem SamePool.agreeOn (b : Blueprint σ) (digest : Bytes) {operation : Operation}
    (hcommon : operation.common = true) : AgreeOn (SamePool b digest) operation := by
  rintro _ _ ⟨p, tokens, rfl, rfl⟩
  cases operation with
  | analyze | analyzeRaw | analyzeMany | cancel | token | close | reset =>
    exact ⟨_, _, _, rfl, rfl, _, _, rfl, rfl⟩
  | nest | isClosed | instantiate | describe => cases hcommon

/-! ### Whole sessions -/

/-- What a new session shows of operations, and the session after them. -/
def shown (start : Except LoadFault (Session σ)) (operations : List Operation) :
    Option (List Display × Session σ) :=
  match start with
  | .error _ => none
  | .ok s => s.transcript operations

/-- The calls of the engine that are logged on each of the handles. -/
def logs (s : Session (σ × List Event)) : List (List Event) :=
  match s.target with
  | .handles handles => handles.map Handle.log
  | .pool p => p.logs
  | .analyzer a => a.pool.logs

section New

variable {b : Blueprint σ} {fresh : Sandbox σ} (hfresh : b.instantiate = .ok fresh)

include hfresh

/-- A session with one handle opens on a fresh sandbox. -/
theorem ofHandle_eq_ok : ofHandle b = .ok ⟨b, .handles [⟨some fresh, {}⟩], {}⟩ := by
  rw [ofHandle, Handle.ofBlueprint_eq_ok hfresh]
  rfl

/-- What new sessions on pools and analyzers start with. -/
theorem exists_pool (size : Nat) (digest : Bytes) :
    ∃ p, ofPool b size = .ok ⟨b, .pool p, {}⟩ ∧
      ofAnalyzer b digest size = .ok ⟨b, .analyzer ⟨b.engine, p, digest⟩, {}⟩ ∧
      p.Mirrors fresh (size - 1) ⟨some fresh, {}⟩ := by
  obtain ⟨p, hpool, hseats, hjournal⟩ : ∃ p, Pool.ofBlueprint b size = .ok p ∧
      p.seats = some fresh :: List.replicate (size - 1) (some fresh) ∧ p.journal = {} := by
    rw [Pool.ofBlueprint, hfresh]
    simp only [Pool.openSeats_eq_ok hfresh]
    exact ⟨_, rfl, rfl, rfl⟩
  refine ⟨p, ?_, ?_, hseats, by rw [hjournal], fun _ => hjournal⟩
  · rw [ofPool, hpool]
    rfl
  · rw [ofAnalyzer, Analyzer.ofBlueprint, hpool]
    rfl

/-- A handle, a pool and an analyzer show the same. -/
theorem shown_agree (size : Nat) (digest : Bytes) {operations : List Operation}
    (hcommon : ∀ operation ∈ operations, operation.common = true) :
    ∃ displays h p tokens,
      shown (ofHandle b) operations = some (displays, ⟨b, .handles [h], tokens⟩) ∧
      shown (ofPool b size) operations = some (displays, ⟨b, .pool p, tokens⟩) ∧
      shown (ofAnalyzer b digest size) operations =
        some (displays, ⟨b, .analyzer ⟨b.engine, p, digest⟩, tokens⟩) ∧
      p.Mirrors fresh (size - 1) h := by
  obtain ⟨p, hpool, hanalyzer, hmirrors⟩ := exists_pool hfresh size digest
  obtain ⟨displays, _, _, hfirst, hsecond, h', p', tokens, rfl, rfl, hlast⟩ :=
    transcript_agree (fun _ => Mirrored.agreeOn) hcommon ⟨_, p, {}, rfl, rfl, hmirrors⟩
  obtain ⟨displays', _, _, hsecond', hthird, q, tokens', rfl, rfl⟩ :=
    transcript_agree (fun _ => SamePool.agreeOn b digest) hcommon ⟨p, {}, rfl, rfl⟩
  obtain ⟨rfl, hsame⟩ := Prod.mk.inj (Option.some.inj (hsecond.symm.trans hsecond'))
  cases hsame
  refine ⟨displays, h', p', tokens, ?_, ?_, ?_, hlast⟩
  · rw [ofHandle_eq_ok hfresh, shown, hfirst]
  · rw [hpool, shown, hsecond]
  · rw [hanalyzer, shown, hthird]

/-- On the recording engine a handle shows what it shows on the engine itself. -/
theorem shown_recording {operations : List Operation}
    (hcommon : ∀ operation ∈ operations, operation.common = true) :
    ∃ displays s t, shown (ofHandle b) operations = some (displays, s) ∧
      shown (ofHandle b.recording) operations = some (displays, t) := by
  have hrecording : b.recording.instantiate = .ok (fresh.watched []) := by
    rw [b.instantiate_recording, hfresh]
    rfl
  obtain ⟨displays, s, t, hs, ht, -⟩ := transcript_agree (fun _ => Recorded.agreeOn b) hcommon
    ⟨⟨some (fresh.watched []), {}⟩, {}, rfl, rfl⟩
  refine ⟨displays, s, t, ?_, ?_⟩
  · rw [ofHandle_eq_ok hfresh, shown]
    exact hs
  · rw [ofHandle_eq_ok hrecording, shown, ht]

/-- One analysis on a handle that is opened for it, and closed again without an error, is answered
as the first call on a new handle. -/
theorem shown_analyzeOnce (request : Request) :
    ∃ h metrics s, Handle.ofBlueprint b = .ok h ∧
      (h.analyze b.engine request false false).2.close.1 = .ok () ∧
      shown (ofHandle b) [.analyze { request := .ok request }] =
        some ([⟨[.contract (analyzeOnce b request)], metrics⟩], s) := by
  obtain ⟨h, hfirst⟩ : ∃ h : Handle σ, h = ⟨some fresh, {}⟩ := ⟨_, rfl⟩
  have hhandle : Handle.ofBlueprint b = .ok h := by
    rw [Handle.ofBlueprint_eq_ok hfresh, hfirst]
  have hclose : (h.analyze b.engine request false false).2.close.1 = .ok () := by
    have hopen : h.sandbox = some fresh := by rw [hfirst]
    have hstill := (Handle.analyze_of_some b.engine hopen ⟨request, false, false⟩).2
    dsimp only at hstill
    simp [Handle.close, Handle.isClosed, hstill]
  have hstep := step_analyze b h {} { request := .ok request }
  rw [Handle.run_of_no_token] at hstep
  have honce : analyzeOnce b request =
      (h.analyze b.engine request false false).1.bind decodePayload := by
    simp only [analyzeOnce, hhandle, hclose]
  refine ⟨h, (h.analyze b.engine request false false).2.journal.metrics,
    ⟨b, .handles [(h.analyze b.engine request false false).2], {}⟩, hhandle, hclose, ?_⟩
  rw [ofHandle_eq_ok hfresh, ← hfirst, shown, honce]
  simp only [transcript, serve, Operation.singles, stepAll, hstep]
  rfl

end New

/-- A call on an analyzer is an operation of a session on it. -/
theorem step_analyzer (b : Blueprint σ) (a : Analyzer σ) (tokens : Tokens) (request : Request) :
    step ⟨b, .analyzer a, tokens⟩ 0 (.analyze { request := .ok request }) =
      some (.contract (a.analyze request).1, ⟨b, .analyzer (a.analyze request).2, tokens⟩) := by
  have hrun : a.pool.run a.engine tokens { request := .ok request } =
      ((a.pool.analyze a.engine request false false).1,
        (a.pool.analyze a.engine request false false).2, tokens) := by
    simp only [Pool.run_eq, Pool.analyze_eq, Pool.onSeat, Handle.run_of_no_token]
  simp only [step, onPool, hrun, Option.map_some]
  rfl

/-- So is one with code in hexadecimal. -/
theorem step_analyzer_hex (b : Blueprint σ) (a : Analyzer σ) (tokens : Tokens) (code : String)
    (options : Options) :
    step ⟨b, .analyzer a, tokens⟩ 0 (.analyze { request := Request.ofHex code options }) =
      some (.contract (a.analyzeHex code options).1,
        ⟨b, .analyzer (a.analyzeHex code options).2, tokens⟩) := by
  unfold Analyzer.analyzeHex
  cases Request.ofHex code options with
  | error e =>
    have hrun : a.pool.run a.engine tokens { request := .error e } = (.error e, a.pool, tokens) :=
      a.pool.run_of_error a.engine tokens rfl
    simp only [step, onPool, hrun, Option.map_some]
    rfl
  | ok request => exact step_analyzer b a tokens request

/-- Operations that are done one at a time are answered by a pool of any size, and by an analyzer,
as they are by a single handle, with the same counters after each of them; only the first handle is
used for them, and with the calls that the single handle makes. The entry points of an analyzer are
such operations. A call on a pool is what the locks make of a request that is alone on it, whenever
its caller gives up. An analysis on a handle of its own is answered as the first call on a new
handle, and closing that handle does not fail. -/
theorem sequence_eq {b : Blueprint σ} {fresh : Sandbox σ} (hfresh : b.instantiate = .ok fresh)
    (size : Nat) (digest : Bytes) {operations : List Operation}
    (hcommon : ∀ operation ∈ operations, operation.common = true) :
    (∃ displays handle pool analyzer,
      shown (ofHandle b) operations = some (displays, handle) ∧
      shown (ofPool b size) operations = some (displays, pool) ∧
      shown (ofAnalyzer b digest size) operations = some (displays, analyzer) ∧
      ∃ handle' pool' analyzer',
        shown (ofHandle b.recording) operations = some (displays, handle') ∧
        shown (ofPool b.recording size) operations = some (displays, pool') ∧
        shown (ofAnalyzer b.recording digest size) operations = some (displays, analyzer') ∧
        pool'.logs = handle'.logs ++ List.replicate (size - 1) [] ∧
        analyzer'.logs = handle'.logs ++ List.replicate (size - 1) []) ∧
    (∀ (a : Analyzer σ) tokens request code options,
      let s : Session σ := ⟨b, .analyzer a, tokens⟩
      s.step 0 (.analyze { request := .ok request }) =
        some (.contract (a.analyze request).1,
          { s with target := .analyzer (a.analyze request).2 }) ∧
      s.step 0 (.analyze { request := Request.ofHex code options }) =
        some (.contract (a.analyzeHex code options).1,
          { s with target := .analyzer (a.analyzeHex code options).2 }) ∧
      s.step 0 .close = some (.done a.close.1, { s with target := .analyzer a.close.2 })) ∧
    (∀ (p : Pool σ) tokens call request, call.request = .ok request →
      p.analyze b.engine request (tokens.stops call) ((tokens.afterBegin call).stops call) =
        ((p.run b.engine tokens call).1, (p.run b.engine tokens call).2.1)) ∧
    (∀ (p : Pool σ) request g e result pool,
      Traffic.LoneReturns b.engine request p g e result pool ↔
        ∃ before after, (g = true → before = true) ∧ (before = true ∨ after = true → e = true) ∧
          p.analyze b.engine request before after = (result, pool)) ∧
    ∀ request, ∃ h metrics s, Handle.ofBlueprint b = .ok h ∧
      (h.analyze b.engine request false false).2.close.1 = .ok () ∧
      shown (ofHandle b) [.analyze { request := .ok request }] =
        some ([⟨[.contract (analyzeOnce b request)], metrics⟩], s) := by
  refine ⟨?_, fun a tokens request code options => ⟨step_analyzer b a tokens request,
    step_analyzer_hex b a tokens code options, rfl⟩, fun p tokens call request hrequest =>
    p.run_analyze b.engine tokens hrequest, fun p request g e result pool =>
    Traffic.loneReturns_iff, shown_analyzeOnce hfresh⟩
  have hrecording : b.recording.instantiate = .ok (fresh.watched []) := by
    rw [b.instantiate_recording, hfresh]
    rfl
  obtain ⟨displays, h, p, tokens, hhandle, hpool, hanalyzer, -⟩ :=
    shown_agree hfresh size digest hcommon
  obtain ⟨displays', h', p', tokens', hhandle', hpool', hanalyzer', hmirrors⟩ :=
    shown_agree hrecording size digest hcommon
  obtain ⟨displays'', s, t, hs, ht⟩ := shown_recording hfresh hcommon
  -- one transcript on the engine and one on the recording engine, which recording makes the same
  obtain ⟨rfl, -⟩ := Prod.mk.inj (Option.some.inj (hs.symm.trans hhandle))
  obtain ⟨rfl, -⟩ := Prod.mk.inj (Option.some.inj (ht.symm.trans hhandle'))
  exact ⟨_, _, _, _, hhandle, hpool, hanalyzer, _, _, _, hhandle', hpool', hanalyzer',
    hmirrors.logs_eq, hmirrors.logs_eq⟩

/-- A batch, a caller that gives up, a call with that token, a call whose caller gives up meanwhile,
closings and a call after them: on no handle asked for, and on two. -/
theorem sequence_eq_forgetful :
    let b := Traffic.forgetful
    let call : Call := { request := .ok ⟨[96], .empty⟩ }
    let operations : List Operation := [.analyzeMany [call, { request := .ok ⟨[], .empty⟩ }],
      .cancel "gone", .analyze { call with token := some "gone" },
      .analyzeRaw { call with token := some "meanwhile", cancelInFlight := true }, .reset,
      .analyzeRaw call, .close, .analyze call, .close]
    ∃ displays handle one two,
      shown (ofHandle b) operations = some (displays, handle) ∧
      shown (ofPool b 0) operations = some (displays, one) ∧
      shown (ofPool b 2) operations = some (displays, two) := by
  intro b call operations
  have hfresh : b.instantiate = .ok ⟨.zeros 1, ()⟩ := rfl
  have hcommon : ∀ operation ∈ operations, operation.common = true := by
    simp [operations, Operation.common]
  obtain ⟨⟨displays, handle, one, -, hhandle, hone, -⟩, -⟩ := sequence_eq hfresh 0 [] hcommon
  obtain ⟨⟨displays', handle', two, -, hhandle', htwo, -⟩, -⟩ := sequence_eq hfresh 2 [] hcommon
  obtain ⟨rfl, -⟩ := Prod.mk.inj (Option.some.inj (hhandle.symm.trans hhandle'))
  exact ⟨displays, handle, one, two, hhandle, hone, htwo⟩

end Session

end EngineHost
