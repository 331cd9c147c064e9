import EngineHost.Proofs.Pool.Serving

/-!
# Requests on a shared pool

Every request comes to at most one analysis, on one of the handles, whose answer is returned. The
counters of the pool agree with the analyses that there have been.
-/

namespace EngineHost

/-- All seats that are opened have the same fresh sandbox. -/
theorem Pool.openSeats_eq_ok {σ : Type} {b : Blueprint σ} {fresh : Sandbox σ}
    (hfresh : b.instantiate = .ok fresh) (count : Nat) :
    Pool.openSeats b count = .ok (List.replicate count (some fresh)) := by
  induction count with
  | zero => rfl
  | succ count ih =>
    rw [Pool.openSeats, hfresh]
    simp only [ih]
    rfl

/-- A pool is opened with fresh sandboxes and nothing noted. -/
theorem Pool.fresh_of_ofBlueprint {σ : Type} {b : Blueprint σ} {size : Nat} {p : Pool σ}
    (hpool : Pool.ofBlueprint b size = .ok p) :
    ∃ fresh, b.instantiate = .ok fresh ∧ p.size = max size 1 ∧ p.journal = {} ∧
      ∀ i sandbox, p.seat i = some sandbox → sandbox = fresh := by
  unfold Pool.ofBlueprint at hpool
  split at hpool
  case h_1 => cases hpool
  case h_2 fresh hfresh =>
    rw [Pool.openSeats_eq_ok hfresh] at hpool
    cases hpool
    refine ⟨fresh, hfresh, ?_, rfl, fun i sandbox hseat => ?_⟩
    · rw [Pool.size, List.length_cons, List.length_replicate]
      omega
    · have hsome : (some fresh :: List.replicate (size - 1) (some fresh))[i]? =
          some (some sandbox) := by
        simpa [Pool.seat, List.getD_eq_getElem?_getD, Option.getD_eq_iff] using hseat
      rw [← List.replicate_succ] at hsome
      exact Option.some.inj (List.eq_of_mem_replicate (List.mem_of_getElem? hsome))

namespace Traffic

variable {σ ι κ : Type} [DecidableEq ι]

/-! ### What requests come to -/

/-- The analyses of a request. -/
def runs (s : Traffic σ ι κ) (c : ι) : List (RunEvent ι) := s.log.filter (·.client = c)

/-- What a request can have found on the handle whose lock it took: a handle that is closed, or a
sandbox that has answered. -/
inductive Found (s : Traffic σ ι κ) (c : ι) : Except Error Bytes → Prop where
  | closed {i : Nat} (hi : i < s.pool.size) (hclosed : s.pool.seat i = none)
      (hruns : s.runs c = []) :
    Found s c (.error .closed)
  | answer {i : Nat} {result : Except Error Bytes}
    (hruns : s.runs c = [.started c i, .finished c i result]) : Found s c result

/-- What a request can return: what it has found, or that its caller has given up, before an
analysis or after one that succeeded. -/
inductive Returns (s : Traffic σ ι κ) (c : ι) : Except Error Bytes → Prop where
  | cancelledBefore (hgaveUp : s.gaveUp c = true) (hruns : s.runs c = []) :
    Returns s c (.error .cancelled)
  | found {result : Except Error Bytes} (hfound : s.Found c result) : Returns s c result
  | cancelledAfter {i : Nat} {bytes : Bytes} (hgaveUp : s.gaveUp c = true)
    (hruns : s.runs c = [.started c i, .finished c i (.ok bytes)]) : Returns s c (.error .cancelled)

/-- The analyses that a request has had by a stage. -/
def Tells (s : Traffic σ ι κ) (c : ι) : Stage → Prop
  | .running i _ => s.runs c = [.started c i]
  | .leaving _ result | .served result => s.Found c result
  | .done result => s.Returns c result
  | .asking _ | .trying _ | .turning | .arriving _ | .waiting _ | .holding _ => s.runs c = []

section Steps

variable {engine : Engine σ} {requests : ι → Request} {s s' : Traffic σ ι κ}

/-- Analyses of one request are none of another. -/
theorem runs_of_append {c : ι} {events : List (RunEvent ι)} (hlog : s'.log = s.log ++ events)
    (hevents : ∀ event ∈ events, event.client = c) :
    s'.runs c = s.runs c ++ events ∧ ∀ d, d ≠ c → s'.runs d = s.runs d := by
  constructor
  · have hkept : events.filter (·.client = c) = events :=
      List.filter_eq_self.mpr (by simpa using hevents)
    rw [runs, hlog, List.filter_append, hkept, runs]
  · intro d hd
    have hdropped : events.filter (·.client = d) = [] := by
      refine List.filter_eq_nil_iff.mpr fun event hevent => ?_
      rw [hevents event hevent]
      simpa using hd.symm
    rw [runs, hlog, List.filter_append, hdropped, List.append_nil, runs]

/-- What a request has come to does not change when others go on. -/
theorem Tells.mono {c : ι} {stage : Stage} (h : s.Tells c stage) (hruns : s'.runs c = s.runs c)
    (hgaveUp : s.gaveUp c = true → s'.gaveUp c = true) (hsize : s'.pool.size = s.pool.size)
    (hclosed : ∀ i, s.pool.seat i = none → s'.pool.seat i = none) : s'.Tells c stage := by
  have hfound : ∀ {result}, s.Found c result → s'.Found c result := by
    intro result hfound
    cases hfound with
    | closed hi hseat hnone => exact .closed (hsize ▸ hi) (hclosed _ hseat) (hruns.trans hnone)
    | answer hsome => exact .answer (hruns.trans hsome)
  cases stage with
  | running i input => exact hruns.trans h
  | leaving i result => exact hfound h
  | served result => exact hfound h
  | done result =>
    cases h with
    | cancelledBefore hgave hnone => exact .cancelledBefore (hgaveUp hgave) (hruns.trans hnone)
    | found hbefore => exact .found (hfound hbefore)
    | cancelledAfter hgave hsome => exact .cancelledAfter (hgaveUp hgave) (hruns.trans hsome)
  | asking | trying | turning | arriving | waiting | holding => exact hruns.trans h

/-- A request that looks whether its caller has given up reports it. -/
theorem Found.report {c : ι} {result : Except Error Bytes} (h : s.Found c result) :
    s.Returns c (Handle.report (s.gaveUp c) result) := by
  cases result with
  | error e => exact .found h
  | ok bytes =>
    cases hgaveUp : s.gaveUp c with
    | false => exact .found h
    | true =>
      cases h with
      | answer hruns => exact .cancelledAfter hgaveUp hruns

/-- A step that only the request notices. -/
theorem Tells.moves {c : ι} {stage next : Stage} (h : s.Tells c stage)
    (hmoves : Stage.Moves s.pool.size s.locked (s.gaveUp c) stage next) : s.Tells c next := by
  cases hmoves with
  | ask | pass | passLast | wait => exact h
  | stop hstops | stopLate hstops => exact .cancelledBefore hstops h
  | report => exact Found.report h

variable [DecidableEq κ]

/-- A closed handle stays closed. -/
theorem Step.seat_eq_none (hstep : Step engine requests s s') {i : Nat}
    (hclosed : s.pool.seat i = none) : s'.pool.seat i = none := by
  cases hstep with
  | giveUp | move | turn | take | leave | closeTake | closeDone => exact hclosed
  | @closeLeave k j error? outcome hclosing =>
    cases outcome <;> exact hclosed
  | refuse | fail | begin =>
    simp only [setPool, setStage, Pool.beginAt]
    exact Pool.seat_onSeat_eq_none (fun _ => rfl) hclosed
  | complete =>
    simp only [setPool, setStage, Pool.completeAt]
    exact Pool.seat_onSeat_eq_none (fun _ => rfl) hclosed
  | close =>
    simp only [setPool, setClosing]
    exact Pool.seat_onSeat_eq_none (fun _ => rfl) hclosed

/-- A caller that has given up does not come back. -/
theorem Step.gaveUp_eq_true (hstep : Step engine requests s s') {c : ι}
    (hgaveUp : s.gaveUp c = true) : s'.gaveUp c = true := by
  cases hstep with
  | giveUp d => by_cases hc : c = d <;> simp [hc, hgaveUp]
  | move | turn | take | refuse | fail | begin | complete | leave => exact hgaveUp
  | closeTake | close | closeLeave | closeDone => exact hgaveUp

/-- A step of one request, with the analyses that it begins or ends, leaves what the others tell. -/
theorem Step.tells_of_client (hstep : Step engine requests s s') (h : ∀ d, s.Tells d (s.stages d))
    {c : ι} {next : Stage} {events : List (RunEvent ι)}
    (hstages : s'.stages = Function.update s.stages c next) (hlog : s'.log = s.log ++ events)
    (hevents : ∀ event ∈ events, event.client = c)
    (hc : s'.runs c = s.runs c ++ events → s'.Tells c next) (d : ι) :
    s'.Tells d (s'.stages d) := by
  obtain ⟨hself, hothers⟩ := runs_of_append hlog hevents
  by_cases hd : d = c
  · subst hd
    rw [hstages, Function.update_self]
    exact hc hself
  · rw [hstages, Function.update_of_ne hd]
    exact (h d).mono (hothers d hd) hstep.gaveUp_eq_true hstep.size_eq fun _ => hstep.seat_eq_none

/-- Every step keeps requests at one analysis at most. -/
theorem Step.tells (hstep : Step engine requests s s') (hrange : s.InRange)
    (h : ∀ d, s.Tells d (s.stages d)) (d : ι) : s'.Tells d (s'.stages d) := by
  have hat : ∀ {c stage}, s.stages c = stage → s.Tells c stage := fun {c} _ hstage => hstage ▸ h c
  have hsize := hstep.size_eq
  have hseat : ∀ i, s.pool.seat i = none → s'.pool.seat i = none := fun _ => hstep.seat_eq_none
  have hkept : ∀ {c stage}, s'.log = s.log → s.Tells c stage → s'.Tells c stage :=
    fun hlog htells => htells.mono (by rw [runs, hlog, runs]) hstep.gaveUp_eq_true hsize hseat
  have hclient : ∀ {c next events}, s'.stages = Function.update s.stages c next →
      s'.log = s.log ++ events → (∀ event ∈ events, event.client = c) →
      (s'.runs c = s.runs c ++ events → s'.Tells c next) → s'.Tells d (s'.stages d) :=
    fun hstages hlog hevents hc => hstep.tells_of_client h hstages hlog hevents hc d
  have hnone : ∀ {c} {event : RunEvent ι}, event ∈ [] → event.client = c := by simp
  -- Whoever does not step tells what it told; whoever does has the events of the step more.
  cases hstep with
  | giveUp | closeTake | closeDone => exact hkept rfl (h d)
  | close | closeLeave => exact hkept (List.append_nil _) (h d)
  | move c hmoves =>
    exact hclient rfl (List.append_nil _).symm (fun _ => hnone) fun _ =>
      hkept rfl ((h c).moves hmoves)
  | turn c hstage =>
    refine hclient rfl rfl (fun _ => hnone) fun hruns => ?_
    exact hruns.trans (by rw [hat hstage, List.append_nil])
  | take c hstage hfree =>
    refine hclient rfl (List.append_nil _).symm (fun _ => hnone) fun hruns => ?_
    rcases hstage with hstage | hstage
    · exact hruns.trans (by rw [hat hstage, List.append_nil])
    · exact hruns.trans (by rw [hat hstage, List.append_nil])
  | @refuse c i e hstage hclosed hbegin =>
    refine hclient rfl rfl (fun _ => hnone) fun hruns => ?_
    obtain rfl : Error.closed = e := by
      simpa [(Pool.beginAt_of_closed engine (requests c) hclosed).1] using hbegin
    have hi : i < s.pool.size := hrange.stage c i (congrArg Stage.index? hstage)
    exact .closed (hsize ▸ hi) (hseat i hclosed)
      (hruns.trans (by rw [hat hstage, List.append_nil]))
  | fail c hstage hopen hbegin =>
    refine hclient rfl rfl (by simp [RunEvent.client]) fun hruns => ?_
    exact .answer (hruns.trans (by rw [hat hstage, List.nil_append]))
  | begin c hstage hbegin =>
    refine hclient rfl rfl (by simp [RunEvent.client]) fun hruns => ?_
    exact hruns.trans (by rw [hat hstage, List.nil_append])
  | complete c hstage hcomplete =>
    refine hclient rfl rfl (by simp [RunEvent.client]) fun hruns => ?_
    exact .answer (hruns.trans (by rw [hat hstage, List.singleton_append]))
  | leave c hstage =>
    have hfound : s.Found c _ := hat hstage
    exact hclient rfl (List.append_nil _).symm (fun _ => hnone) fun _ => hkept rfl hfound

end Steps

/-! ### What the counters say -/

/-- With the requests of `active` in sandboxes and `finished` analyses that have ended, as many
input buffers have been given as were taken back or are in use, and a call has been counted for each
end. -/
structure Counted (stages : ι → Stage) (finished : Nat) (t : Tally) (active : List ι) : Prop where
  nodup : active.Nodup
  mem_iff : ∀ c, c ∈ active ↔ (stages c).run?.isSome
  allocations_eq : t.allocations = t.deallocations + active.length.toUInt64
  calls_eq : t.calls = finished.toUInt64

namespace Counted

variable {stages : ι → Stage} {finished : Nat} {t : Tally} {active : List ι} {c : ι} {next : Stage}

omit [DecidableEq ι] in
/-- The count depends on the numbers alone. -/
theorem of_eq (h : Counted stages finished t active) {finished' : Nat} {t' : Tally}
    (hfinished : finished' = finished) (htally : t' = t) : Counted stages finished' t' active := by
  rwa [hfinished, htally]

omit [DecidableEq ι] in
/-- An analysis that ends with its first half. -/
theorem fail (h : Counted stages finished t active) (e : Error) :
    Counted stages (finished + 1) (t.begin (.error e)) active where
  nodup := h.nodup
  mem_iff := h.mem_iff
  allocations_eq := h.allocations_eq
  calls_eq := by
    have hnext : (finished + 1).toUInt64 = finished.toUInt64 + 1 := UInt64.ofNat_add finished 1
    rw [hnext, ← h.calls_eq]
    rfl

/-- A request goes on outside of sandboxes. -/
theorem outside (h : Counted stages finished t active) (next : Stage) {stage : Stage}
    (hstage : stages c = stage) (hrun : stage.run? = next.run?) :
    Counted (Function.update stages c next) finished t active where
  nodup := h.nodup
  mem_iff := by simpa only [run?_update hstage hrun] using h.mem_iff
  allocations_eq := h.allocations_eq
  calls_eq := h.calls_eq

/-- A request is given an input buffer. -/
theorem begin (h : Counted stages finished t active) {i : Nat} (hstage : stages c = .holding i)
    (hnext : next.run?.isSome) (input : UInt32) :
    Counted (Function.update stages c next) finished (t.begin (.ok input)) (c :: active) where
  nodup := by
    refine List.nodup_cons.mpr ⟨fun hc => ?_, h.nodup⟩
    rw [h.mem_iff, hstage] at hc
    cases hc
  mem_iff := by
    intro d
    by_cases hd : d = c
    · subst hd
      simp [hnext]
    · simp [hd, h.mem_iff]
  allocations_eq := by
    have hlength : (c :: active).length.toUInt64 = active.length.toUInt64 + 1 :=
      UInt64.ofNat_add active.length 1
    rw [hlength, ← UInt64.add_assoc]
    exact congrArg (· + 1) h.allocations_eq
  calls_eq := h.calls_eq

/-- A request gives its input buffer back. -/
theorem complete (h : Counted stages finished t active) {i : Nat} {input : UInt32}
    (hstage : stages c = .running i input) (hnext : next.run? = none) :
    Counted (Function.update stages c next) (finished + 1) t.complete (active.erase c) where
  nodup := h.nodup.erase c
  mem_iff := by
    intro d
    by_cases hd : d = c
    · subst hd
      simp [hnext, h.nodup.not_mem_erase]
    · simp [hd, h.mem_iff, List.mem_erase_of_ne hd]
  allocations_eq := by
    have hmem : c ∈ active := by
      rw [h.mem_iff, hstage]
      rfl
    have hlength : active.length.toUInt64 = (active.erase c).length.toUInt64 + 1 := by
      rw [← List.length_erase_add_one hmem]
      exact UInt64.ofNat_add (active.erase c).length 1
    have hbefore := h.allocations_eq
    rw [hlength, UInt64.add_comm (active.erase c).length.toUInt64, ← UInt64.add_assoc] at hbefore
    exact hbefore
  calls_eq := by
    have hmore : (finished + 1).toUInt64 = finished.toUInt64 + 1 := UInt64.ofNat_add finished 1
    rw [hmore, ← h.calls_eq]
    rfl

end Counted

/-- The number of analyses that have ended. -/
def finished (s : Traffic σ ι κ) : Nat := s.log.countP (·.isFinish)

section Counting

variable [DecidableEq κ] {engine : Engine σ} {fresh : Sandbox σ} {requests : ι → Request}
  {s s' : Traffic σ ι κ} {active : List ι}

/-- Every step keeps the counters right. -/
theorem Step.counted (hstep : Step engine requests s s') (hrange : s.InRange)
    (htended : s.Tended engine fresh requests)
    (h : Counted s.stages s.finished s.pool.journal.tally active) :
    ∃ active', Counted s'.stages s'.finished s'.pool.journal.tally active' := by
  have hfinished : ∀ events, (s.log ++ events).countP (·.isFinish) =
      s.finished + events.countP (·.isFinish) := fun events => List.countP_append
  cases hstep with
  | giveUp | closeTake | closeDone => exact ⟨active, h⟩
  | move c hmoves => exact ⟨active, h.outside _ rfl hmoves.run?_eq⟩
  | take c hstage hfree =>
    rcases hstage with hstage | hstage
    · exact ⟨active, h.outside (.holding _) hstage rfl⟩
    · exact ⟨active, h.outside (.holding _) hstage rfl⟩
  | leave c hstage => exact ⟨active, h.outside (.served _) hstage rfl⟩
  | turn c hstage => exact ⟨active, .of_eq (h.outside (.arriving _) hstage rfl) (hfinished []) rfl⟩
  | @refuse c i e hstage hclosed hbegin =>
    have htally := congrArg Journal.tally (Pool.beginAt_of_closed engine (requests c) hclosed).2
    exact ⟨active, .of_eq (h.outside (.leaving i _) hstage rfl) (hfinished []) htally⟩
  | @fail c i e hstage hopen hbegin =>
    have hi : i < s.pool.size := hrange.stage c i (congrArg Stage.index? hstage)
    obtain ⟨before, hbefore⟩ := Option.isSome_iff_exists.mp hopen
    obtain ⟨hanswer, -, htally⟩ := Pool.beginAt_of_open engine (requests c) hi hbefore
    rw [← hanswer, hbegin] at htally
    exact ⟨active, .of_eq ((h.fail e).outside (.leaving i _) hstage rfl)
      (hfinished [.started c i, .finished c i (.error e)]) htally⟩
  | @begin c i input hstage hbegin =>
    have hi : i < s.pool.size := hrange.stage c i (congrArg Stage.index? hstage)
    cases hseat : s.pool.seat i with
    | none =>
      rw [(Pool.beginAt_of_closed engine (requests c) hseat).1] at hbegin
      cases hbegin
    | some before =>
      obtain ⟨hanswer, -, htally⟩ := Pool.beginAt_of_open engine (requests c) hi hseat
      rw [← hanswer, hbegin] at htally
      exact ⟨c :: active, .of_eq (h.begin hstage rfl input) (hfinished [.started c i]) htally⟩
  | @complete c i input result hstage hcomplete =>
    have hi : i < s.pool.size := hrange.stage c i (congrArg Stage.index? hstage)
    obtain ⟨sandbox, hseat, -⟩ := htended.busy c i input (congrArg Stage.run? hstage)
    obtain ⟨-, -, htally⟩ := Pool.completeAt_of_open engine (requests c) hi hseat input
    exact ⟨active.erase c,
      .of_eq (h.complete hstage rfl) (hfinished [.finished c i result]) htally⟩
  | @close k i error? hclosing =>
    have htally : (s.pool.onSeat i Handle.close).2.journal.tally = s.pool.journal.tally := by
      rw [Pool.journal_onSeat]
      cases s.pool.seat i <;> rfl
    exact ⟨active, .of_eq h (hfinished []) htally⟩
  | @closeLeave k i error? outcome hclosing =>
    have htally : (noteClosing s.pool i outcome).journal.tally = s.pool.journal.tally := by
      cases outcome <;> rfl
    exact ⟨active, .of_eq h (hfinished []) htally⟩

end Counting

/-! ### From a fresh pool on -/

/-- A pool that has just been opened, on which nothing is under way yet. -/
def opened (p : Pool σ) (gaveUp : ι → Bool) : Traffic σ ι κ := { pool := p, gaveUp := gaveUp }

/-- All that is kept by every step. -/
structure Sound (engine : Engine σ) (fresh : Sandbox σ) (requests : ι → Request)
    (s : Traffic σ ι κ) : Prop where
  exclusive : Exclusive s.locked s.lockOf
  inRange : s.InRange
  tended : s.Tended engine fresh requests
  tells : ∀ c, s.Tells c (s.stages c)
  counted : ∃ active, Counted s.stages s.finished s.pool.journal.tally active

/-- Every step keeps what is kept by every step. -/
theorem Step.sound [DecidableEq κ] {engine : Engine σ} {fresh : Sandbox σ} {requests : ι → Request}
    {s s' : Traffic σ ι κ} (hstep : Step engine requests s s') (h : s.Sound engine fresh requests) :
    s'.Sound engine fresh requests where
  exclusive := hstep.exclusive h.exclusive
  inRange := hstep.inRange h.inRange
  tended := hstep.tended h.exclusive h.inRange h.tended
  tells := hstep.tells h.inRange h.tells
  counted := by
    obtain ⟨active, hcounted⟩ := h.counted
    exact hstep.counted h.inRange h.tended hcounted

/-- All of it holds of a pool that has just been opened. -/
theorem sound_opened {engine : Engine σ} {fresh : Sandbox σ} {requests : ι → Request} {p : Pool σ}
    (hseats : ∀ i sandbox, p.seat i = some sandbox → sandbox = fresh) (hjournal : p.journal = {})
    (gaveUp : ι → Bool) : (opened p gaveUp : Traffic σ ι κ).Sound engine fresh requests where
  exclusive := by
    have hnone : ∀ a, (opened p gaveUp : Traffic σ ι κ).lockOf a = none := by
      rintro (c | k) <;> rfl
    constructor <;> simp [hnone]
  inRange := by
    constructor
    · intro c i hi
      cases hi
      exact List.length_pos_of_ne_nil p.seats_ne_nil
    · intro k i hi
      cases hi
  tended := by
    refine ⟨fun i sandbox hseat _ => ?_, fun c i input hrun => ?_, fun c i result hmem => ?_⟩
    · rw [hseats i sandbox hseat]
      exact .fresh
    · cases hrun
    · cases hmem
  tells := fun c => rfl
  counted := by
    refine ⟨[], List.nodup_nil, fun c => ?_, ?_, ?_⟩
    · simp [opened, Stage.run?]
    · simp [opened, hjournal, Journal.tally]
    · simp [opened, hjournal, Journal.tally, finished]

/-- A request that has started an analysis has started no other. -/
theorem Tells.countP_isStart_le {s : Traffic σ ι κ} {c : ι} {stage : Stage}
    (h : s.Tells c stage) : (s.runs c).countP (·.isStart) ≤ 1 := by
  have hfound : ∀ {result}, s.Found c result → (s.runs c).countP (·.isStart) ≤ 1 := by
    intro result hfound
    cases hfound with
    | closed _ _ hruns => simp [hruns]
    | answer hruns => simp [hruns, RunEvent.isStart]
  cases stage with
  | running i input =>
    have hruns : s.runs c = _ := h
    simp [hruns, RunEvent.isStart]
  | leaving i result => exact hfound h
  | served result => exact hfound h
  | done result =>
    cases h with
    | cancelledBefore _ hruns => simp [hruns]
    | found hbefore => exact hfound hbefore
    | cancelledAfter _ hruns => simp [hruns, RunEvent.isStart]
  | asking | trying | turning | arriving | waiting | holding =>
    have hruns : s.runs c = [] := h
    simp [hruns]

end Traffic

/-- The engine answers a request in a sandbox that has served others as in a fresh one. -/
def Engine.Steady {σ : Type} (engine : Engine σ) (fresh : Sandbox σ) : Prop :=
  ∀ s, Sandbox.Served engine fresh s → ∀ code mask j,
    (Sandbox.analyze engine code mask s j).1 = (Sandbox.analyze engine code mask fresh j).1

/-- A request that has run on a steady engine returns what a fresh handle returns, unless its caller
has given up. -/
theorem Traffic.Sound.returns_fresh {σ ι κ : Type} [DecidableEq ι] {engine : Engine σ}
    {fresh : Sandbox σ} {requests : ι → Request} {s : Traffic σ ι κ}
    (h : s.Sound engine fresh requests) (hsteady : engine.Steady fresh) {c : ι}
    {result : Except Error Bytes} (hdone : s.stages c = .done result) (hran : s.runs c ≠ []) :
    result = (Handle.analyze engine ⟨some fresh, {}⟩ (requests c) false false).1 ∨
      s.gaveUp c = true ∧ result = .error .cancelled := by
  have htells := h.tells c
  rw [hdone] at htells
  cases htells with
  | cancelledBefore hgaveUp | cancelledAfter hgaveUp => exact .inr ⟨hgaveUp, rfl⟩
  | found hfound =>
    cases hfound with
    | closed _ _ hruns => exact absurd hruns hran
    | @answer i _ hruns =>
      have hmem : .finished c i result ∈ s.runs c := by simp [hruns]
      obtain ⟨before, hserved, rfl⟩ := h.tended.told c i result (List.mem_filter.mp hmem).1
      rw [Handle.analyze_of_open, Handle.report_false, ← hsteady before hserved,
        Sandbox.analyze_fst]
      exact .inl rfl

namespace Traffic

/-- On a pool that any number of requests and closings share, in whatever order their steps come:
each lock has one holder at a time and each sandbox one request inside; requests wait for handles
that there are; each request begins at most one analysis and returns what it came to, unless it
found the handle closed or its caller has given up; and whenever nobody is in a sandbox, the
counters are even. If the engine is steady, a request that has run returns what a fresh handle
returns, unless its caller has given up. -/
theorem shared_pool_serves {σ ι κ : Type} [DecidableEq ι] [DecidableEq κ] {b : Blueprint σ}
    {size : Nat} {p : Pool σ} (hpool : Pool.ofBlueprint b size = .ok p) (requests : ι → Request)
    (gaveUp : ι → Bool) {s : Traffic σ ι κ}
    (hreach : Reachable b.engine requests (opened p gaveUp) s) :
    (∀ a a' i, s.lockOf a = some i → s.lockOf a' = some i → a = a') ∧
    (∀ c c' i input input', s.stages c = .running i input → s.stages c' = .running i input' →
      c = c') ∧
    (∀ c i, s.stages c = .arriving i ∨ s.stages c = .waiting i → i < max size 1) ∧
    (∀ c, (s.runs c).countP (·.isStart) ≤ 1) ∧
    (∀ c result, s.stages c = .done result → s.Returns c result) ∧
    ((∀ c i input, s.stages c ≠ .running i input) →
      s.pool.journal.metrics.allocations = s.pool.journal.metrics.deallocations ∧
      s.pool.journal.metrics.calls = s.finished.toUInt64) ∧
    ∃ fresh, Handle.ofBlueprint b = .ok ⟨some fresh, {}⟩ ∧
      (b.engine.Steady fresh → ∀ c result, s.stages c = .done result → s.runs c ≠ [] →
        result = (Handle.analyze b.engine ⟨some fresh, {}⟩ (requests c) false false).1 ∨
          s.gaveUp c = true ∧ result = .error .cancelled) := by
  obtain ⟨fresh, hfresh, hsize, hjournal, hseats⟩ := Pool.fresh_of_ofBlueprint hpool
  have hsound : s.Sound b.engine fresh requests ∧ s.pool.size = max size 1 := by
    refine hreach.invariant (fun s => s.Sound b.engine fresh requests ∧ s.pool.size = max size 1)
      ?_ ?_
    · exact ⟨sound_opened hseats hjournal gaveUp, hsize⟩
    · rintro s s' ⟨h, hsize⟩ hstep
      exact ⟨hstep.sound h, hstep.size_eq.trans hsize⟩
  obtain ⟨h, hsize⟩ := hsound
  refine ⟨fun a a' i => h.exclusive.apart, fun c c' i input input' hc hc' => ?_,
    fun c i hstage => ?_, fun c => (h.tells c).countP_isStart_le, fun c result hdone => ?_,
    fun hnobody => ?_, fresh, ?_, fun hsteady c result => h.returns_fresh hsteady⟩
  · have hlock : s.lockOf (.inl c) = some i := congrArg Stage.lock? hc
    have hlock' : s.lockOf (.inl c') = some i := congrArg Stage.lock? hc'
    exact Sum.inl.inj (h.exclusive.apart hlock hlock')
  · rw [← hsize]
    rcases hstage with hstage | hstage
    · exact h.inRange.stage c i (by rw [hstage]; rfl)
    · exact h.inRange.stage c i (by rw [hstage]; rfl)
  · have htells := h.tells c
    rwa [hdone] at htells
  · obtain ⟨active, hcounted⟩ := h.counted
    obtain rfl : active = [] := by
      refine List.eq_nil_iff_forall_not_mem.mpr fun c hc => ?_
      obtain ⟨⟨i, input⟩, hrun⟩ := Option.isSome_iff_exists.mp ((hcounted.mem_iff c).mp hc)
      exact hnobody c i input (Stage.eq_running_of_run? hrun)
    exact ⟨by simpa [Journal.tally] using hcounted.allocations_eq, hcounted.calls_eq⟩
  · rw [Handle.ofBlueprint, hfresh]
    rfl

/-- An engine that starts with blank memory at each request, and whose result is the text of an
empty object. -/
def forgetfulEngine : Engine Unit where
  alloc := fun _ _ => (.returned 8, ⟨.zeros 1, ()⟩)
  analyze := fun _ _ _ s =>
    (.returned 16, ⟨(s.memory.write? 16 [2, 0, 0, 0, 123, 125]).getD s.memory, ()⟩)
  dealloc := fun _ _ s => (.returned (), s)

/-- The module of this engine. -/
def forgetful : Blueprint Unit where
  start := some ⟨.zeros 1, ()⟩
  memory := true
  alloc := .matching
  dealloc := .matching
  analyze := .matching
  engine := forgetfulEngine

/-- The engine that forgets everything answers alike after any analyses. -/
theorem steady_forgetfulEngine (fresh : Sandbox Unit) : forgetfulEngine.Steady fresh := by
  intro s _ code mask j
  rw [Sandbox.analyze_fst, Sandbox.analyze_fst]
  rfl

/-- The pool that is opened when no handle is asked for: it has one. -/
def forgetfulPool : Pool Unit where
  seats := [some ⟨.zeros 1, ()⟩]
  seats_ne_nil := by simp

/-- Two requests on a pool with one handle: the second comes while the first holds the handle, and
waits for it. -/
theorem shared_pool_serves_two :
    ∃ s : Traffic Unit Bool Unit,
      Reachable forgetful.engine (fun _ => ⟨[96], .empty⟩) (opened forgetfulPool fun _ => false) s ∧
      s.stages true = .done (.ok [123, 125]) ∧
      s.Returns true (.ok [123, 125]) ∧
      s.finished = 2 ∧
      s.pool.journal.metrics.calls = 2 ∧
      s.pool.journal.metrics.allocations = s.pool.journal.metrics.deallocations ∧
      ∃ fresh, .ok [123, 125] =
        (Handle.analyze forgetful.engine ⟨some fresh, {}⟩ ⟨[96], .empty⟩ false false).1 := by
  have hpool : Pool.ofBlueprint forgetful 0 = .ok forgetfulPool := rfl
  have hrefl : Reachable forgetful.engine (fun _ => ⟨[96], .empty⟩)
      (opened forgetfulPool fun _ => false : Traffic Unit Bool Unit) _ := .refl
  have hreach := hrefl
    |>.tail (.move false (.ask rfl))
    |>.tail (.take false (.inl rfl) rfl)
    |>.tail (.move true (.ask rfl))
    |>.tail (.move true (.passLast rfl rfl))
    |>.tail (.turn true rfl)
    |>.tail (.move true (.wait rfl))
    |>.tail (.begin false rfl rfl)
    |>.tail (.complete false rfl rfl)
    |>.tail (.leave false rfl)
    |>.tail (.take true (.inr rfl) rfl)
    |>.tail (.begin true rfl rfl)
    |>.tail (.complete true rfl rfl)
    |>.tail (.leave true rfl)
    |>.tail (.move true .report)
    |>.tail (.move false .report)
  obtain ⟨-, -, -, -, hreturns, hcounters, fresh, -, hfresh⟩ := shared_pool_serves hpool _ _ hreach
  refine ⟨_, hreach, rfl, hreturns true _ rfl, rfl, ?_⟩
  obtain ⟨heven, hcalls⟩ := hcounters (by rintro (_ | _) i input h <;> cases h)
  refine ⟨hcalls, heven, fresh, ?_⟩
  rcases hfresh (steady_forgetfulEngine fresh) true _ rfl (by intro h; cases h) with
    hsame | ⟨hgaveUp, -⟩
  · exact hsame
  · cases hgaveUp

end Traffic

end EngineHost
