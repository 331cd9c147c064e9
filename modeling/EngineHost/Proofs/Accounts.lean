import EngineHost.Proofs.Cleanup
import EngineHost.Proofs.Counting
import EngineHost.Proofs.Precedence

/-!
# Accounts

The counters of a handle or of a pool are changed at many places while a request is served. Who
instead writes down what the sandbox answers and which calls of the engine are made, and starts a
new account whenever the counters are set back, can tell from the account what the counters show.
-/

namespace EngineHost

variable {σ : Type}

/-- What has happened since the counters were last set back. -/
structure Account where
  /-- What the sandbox answered to each request that reached it. -/
  answers : List (Except Error Bytes) := []
  /-- The calls of the engine. -/
  events : List Event := []

/-- The counters of two times together. -/
def Metrics.add (m n : Metrics) : Metrics where
  calls := m.calls + n.calls
  failures := m.failures + n.failures
  allocations := m.allocations + n.allocations
  deallocations := m.deallocations + n.deallocations
  resultReleases := m.resultReleases + n.resultReleases
  cleanupFailures := m.cleanupFailures + n.cleanupFailures
  payloadBytes := m.payloadBytes + n.payloadBytes

namespace Account

/-- What the counters show by this account, up to the size of a counter. -/
def metrics (a : Account) : Metrics where
  calls := a.answers.length.toUInt64
  failures := (a.answers.countP (!·.isOk)).toUInt64
  allocations := (a.events.countP (·.givesBuffer)).toUInt64
  deallocations := (Debts.releases .input {} a.events).toUInt64
  resultReleases := (Debts.releases .result {} a.events).toUInt64
  cleanupFailures := (a.events.countP (·.isTrappedRelease)).toUInt64
  payloadBytes := (a.answers.flatMap payloadOf).length.toUInt64

/-- An account that is carried on. -/
def append (a page : Account) : Account :=
  ⟨a.answers ++ page.answers, a.events ++ page.events⟩

/-- The account after an action, of which `page` tells. -/
def after (a : Account) (page : Account) : Action → Account
  | .analyze _ | .analyzeRaw _ | .close => a.append page
  | .reset => {}

/-- The account tells of nothing, or of one request that reached the sandbox. -/
inductive Page : Account → Prop where
  | blank : Page {}
  | request {code : Bytes} {mask : UInt32} {events : List Event} {answer : Except Error Bytes}
    (hexchange : Exchange code mask events answer) : Page ⟨[answer], events⟩

/-- Every buffer has been given back. -/
structure Settled (a : Account) : Prop where
  nothingOwed : a.events.foldl Debts.after {} = {}
  inputs : Debts.releases .input {} a.events = a.events.countP (·.givesBuffer)
  results : Debts.releases .result {} a.events ≤ Debts.releases .input {} a.events
  requests : Debts.releases .input {} a.events ≤ a.answers.length

/-- Nothing is owed before the first request. -/
theorem settled_empty : Settled {} where
  nothingOwed := rfl
  inputs := rfl
  results := Nat.le_refl 0
  requests := Nat.le_refl 0

/-- One request gives back every buffer it was given. -/
theorem Page.settled {page : Account} (hpage : Page page) : page.Settled := by
  cases hpage with
  | blank => exact settled_empty
  | request hexchange =>
    obtain ⟨hinputs, -, hresults, hone, hnothing⟩ := hexchange.releases_eq
    exact ⟨hnothing, hinputs, hresults, hone⟩

/-- Where nothing is owed, what is given back later is told by the later account alone. -/
theorem Settled.releases_append {a : Account} (hsettled : a.Settled) (page : Account)
    (purpose : Purpose) :
    Debts.releases purpose {} (a.append page).events =
      Debts.releases purpose {} a.events + Debts.releases purpose {} page.events := by
  rw [append, Debts.releases_append, hsettled.nothingOwed]

/-- An account without debts stays so when a page without debts is added. -/
theorem Settled.append {a page : Account} (hsettled : a.Settled) (hpage : page.Settled) :
    (a.append page).Settled where
  nothingOwed := by
    rw [Account.append, List.foldl_append, hsettled.nothingOwed, hpage.nothingOwed]
  inputs := by
    rw [hsettled.releases_append, hsettled.inputs, hpage.inputs, Account.append,
      List.countP_append]
  results := by
    rw [hsettled.releases_append, hsettled.releases_append]
    exact Nat.add_le_add hsettled.results hpage.results
  requests := by
    rw [hsettled.releases_append, Account.append, List.length_append]
    exact Nat.add_le_add hsettled.requests hpage.requests

/-- The counters of an account that is carried on. -/
theorem Settled.metrics_append {a : Account} (hsettled : a.Settled) (page : Account) :
    (a.append page).metrics = a.metrics.add page.metrics := by
  simp only [metrics, hsettled.releases_append]
  simp [Account.append, Metrics.add]

/-- No input buffer is outstanding by an account of which everything is given back. -/
theorem Settled.outstanding_metrics {a : Account} (hsettled : a.Settled) :
    a.metrics.outstanding = 0 := by
  simp [Metrics.outstanding, metrics, hsettled.inputs]

/-- While the number of requests fits into a counter, the counters keep the order of what they
count. -/
theorem Settled.metrics_le {a : Account} (hsettled : a.Settled)
    (hfew : a.answers.length < 2 ^ 64) :
    a.metrics.failures ≤ a.metrics.calls ∧ a.metrics.resultReleases ≤ a.metrics.allocations ∧
      a.metrics.allocations = a.metrics.deallocations ∧
      a.metrics.deallocations ≤ a.metrics.calls := by
  have hfailures : a.answers.countP (!·.isOk) ≤ a.answers.length := List.countP_le_length
  have hinputs := hsettled.inputs
  have hresults := hsettled.results
  have hrequests := hsettled.requests
  have hle : ∀ m n : Nat, m ≤ n → n < 2 ^ 64 → m.toUInt64 ≤ n.toUInt64 := by
    intro m n hmn hn
    rw [UInt64.le_iff_toNat_le]
    simp only [Nat.toUInt64, UInt64.toNat_ofNat']
    omega
  refine ⟨hle _ _ hfailures hfew, ?_, ?_, hle _ _ hrequests hfew⟩
  · exact hle _ _ (by omega) (by omega)
  · simp only [metrics, hinputs]

end Account

/-! ### One request -/

/-- Where the counters say nothing beyond the calls of an exchange that they did not say before,
they have changed by what there is to be written down. -/
theorem Journal.metrics_of_surplus {j j' : Journal} {code : Bytes} {mask : UInt32}
    {events : List Event} {answer : Except Error Bytes}
    (hexchange : Exchange code mask events answer)
    (hsurplus : j'.surplus events =
      { j.surplus [] with
        payload := (j.surplus []).payload + (payloadOf answer).length.toUInt64 }) :
    j'.metrics.recordCall (!answer.isOk) =
      j.metrics.add (Account.metrics ⟨[answer], events⟩) := by
  obtain ⟨hinputs, hreleases, -, -, -⟩ := hexchange.releases_eq
  simp only [surplus, ← hinputs, ← hreleases, List.countP_nil, Nat.toUInt64, UInt64.ofNat_add,
    UInt64.reduceOfNat, UInt64.sub_zero, Surplus.mk.injEq] at hsurplus
  obtain ⟨hcalls, hfailures, hgiven, hinUse, hreleased, htrapped, hpayload⟩ := hsurplus
  simp only [Metrics.recordCall, Metrics.add, Account.metrics, Nat.toUInt64, ← hinputs,
    Metrics.mk.injEq]
  refine ⟨by simp [hcalls], ?_, ?_, ?_, ?_, ?_, by simp [hpayload]⟩
  · cases answer <;> simp [Except.isOk, Except.toBool, hfailures]
  -- the counters of buffers
  · grind only
  · grind only
  · grind only
  · grind only

namespace Sandbox

/-- An analysis, once it is counted, has changed the counters by what there is to be written
down. -/
theorem analyze_metrics (engine : Engine σ) (code : Bytes) (mask : UInt32) (s : Sandbox σ)
    (j : Journal) :
    let analyzed := analyze engine code mask s j
    ∃ events, Follows (analyze engine.recording code mask (s.watched []) j) analyzed [] events ∧
      Exchange code mask events analyzed.1 ∧
      analyzed.2.2.metrics.recordCall (!analyzed.1.isOk) =
        j.metrics.add (Account.metrics ⟨[analyzed.1], events⟩) := by
  obtain ⟨events, hfollows, hexchange⟩ := analyze_recording engine code mask s [] j
  have hsurplus := analyze_surplus engine (s.watched []) j code mask
  rw [hfollows] at hsurplus
  exact ⟨events, hfollows, hexchange, Journal.metrics_of_surplus hexchange hsurplus⟩

end Sandbox

/-- Nothing to be written down changes no counter. -/
@[simp] theorem Metrics.add_blank (m : Metrics) : m.add (Account.metrics {}) = m := by
  simp [Metrics.add, Account.metrics, Debts.releases]

/-! ### Handles -/

namespace Handle

/-- What the sandbox answers to a request that reaches it. -/
def own? (engine : Engine σ) (h : Handle σ) : Action → Option (Except Error Bytes)
  | .analyze a | .analyzeRaw a =>
    if a.cancelledBefore then none
    else h.sandbox.map fun s =>
      (Sandbox.analyze engine a.request.code a.request.options.mask s h.journal).1
  | .close | .reset => none

/-- What is written down of an action on a handle. -/
def page (engine : Engine σ) (h : Handle σ) (action : Action) : Account :=
  ⟨(h.own? engine action).toList, (h.watched.act engine.recording action).2.log⟩

/-- What is refused is not written down. -/
theorem page_of_refused (engine : Engine σ) {h : Handle σ} {action : Action}
    (hrefused : action.cancelledBefore = true ∨ h.sandbox = none ∧ action ≠ .reset) :
    h.page engine action = {} := by
  have hown : h.own? engine action = none := by
    cases action with
    | analyze a | analyzeRaw a =>
      rcases hrefused with hbefore | ⟨hclosed, -⟩
      · exact if_pos hbefore
      · simp [own?, hclosed]
    | close | reset => rfl
  have hwatched : (h.watched.act engine.recording action).2 = h.watched :=
    act_of_refused engine.recording (hrefused.imp_right fun ⟨hclosed, hreset⟩ =>
      ⟨by rw [watched, hclosed]; rfl, hreset⟩)
  simp [page, hown, hwatched]

/-- A request is written down as the exchange that it was, and changes the counters by that. -/
theorem page_of_reached (engine : Engine σ) (s : Sandbox σ) (j : Journal) {a : Attempt}
    (hbefore : a.cancelledBefore = false) :
    (page engine ⟨some s, j⟩ (.analyzeRaw a)).Page ∧
      (act engine ⟨some s, j⟩ (.analyzeRaw a)).2.journal.metrics =
        j.metrics.add (page engine ⟨some s, j⟩ (.analyzeRaw a)).metrics := by
  obtain ⟨events, hfollows, hexchange, hmetrics⟩ :=
    Sandbox.analyze_metrics engine a.request.code a.request.options.mask s j
  have hplain := analyze_of_open engine s j a.request a.cancelledAfter
  have hrecorded := analyze_of_open engine.recording (s.watched []) j a.request a.cancelledAfter
  rw [hfollows] at hrecorded
  have hpage : page engine ⟨some s, j⟩ (.analyzeRaw a) =
      ⟨[(Sandbox.analyze engine a.request.code a.request.options.mask s j).1], events⟩ := by
    simp only [page, own?, hbefore, act, watched, Option.map_some, hrecorded]
    simp [log]
  rw [hpage]
  refine ⟨.request hexchange, ?_⟩
  simp only [act, hbefore, hplain]
  exact hmetrics

/-- What an action changes in the counters is written down, unless it sets them back. -/
theorem act_metrics (engine : Engine σ) (h : Handle σ) {action : Action}
    (hreset : action ≠ .reset) :
    (h.page engine action).Page ∧
      (h.act engine action).2.journal.metrics =
        h.journal.metrics.add (h.page engine action).metrics := by
  by_cases hrefused : action.cancelledBefore = true ∨ h.sandbox = none ∧ action ≠ .reset
  · rw [page_of_refused engine hrefused, act_of_refused engine hrefused, Metrics.add_blank]
    exact ⟨.blank, rfl⟩
  · obtain ⟨hbefore, hopen⟩ := not_or.mp hrefused
    obtain ⟨sandbox, j⟩ := h
    cases sandbox with
    | none => exact absurd ⟨rfl, hreset⟩ hopen
    | some s =>
      cases action with
      | analyze a => exact page_of_reached engine s j (Bool.eq_false_iff.mpr hbefore)
      | analyzeRaw a => exact page_of_reached engine s j (Bool.eq_false_iff.mpr hbefore)
      | close =>
        refine ⟨.blank, ?_⟩
        rw [show page engine ⟨some s, j⟩ .close = {} from rfl, Metrics.add_blank]
        rfl
      | reset => exact absurd rfl hreset

end Handle

/-! ### Pools -/

namespace Pool

/-- Does something on a pool. A request is served by the handle with this index, which is the first
one if nobody holds it. -/
def act (engine : Engine σ) (p : Pool σ) (index : Nat) : Action → Answer × Pool σ
  | .analyze a => p.onSeat index (·.act engine (.analyze a))
  | .analyzeRaw a => p.onSeat index (·.act engine (.analyzeRaw a))
  | .close =>
    let (result, after) := p.close
    (.done result, after)
  | .reset => (.done (.ok ()), { p with journal := p.journal.reset })

/-- The pool on the recording engine, before any call is logged. -/
def watched (p : Pool σ) : Pool (σ × List Event) where
  seats := p.seats.map (·.map (·.watched []))
  seats_ne_nil := by simpa using p.seats_ne_nil
  turns := p.turns
  journal := p.journal

/-- The calls that are logged on each of the handles. -/
def logs (p : Pool (σ × List Event)) : List (List Event) :=
  p.seats.map fun seat => seat.elim [] (·.state.2)

/-- The calls that are logged on any of the handles. -/
def log (p : Pool (σ × List Event)) : List Event := p.logs.flatten

/-- What is written down of an action on a pool. -/
def page (engine : Engine σ) (p : Pool σ) (index : Nat) (action : Action) : Account :=
  ⟨(Handle.own? engine ⟨p.seat index, p.journal⟩ action).toList,
    (p.watched.act engine.recording index action).2.log⟩

/-- A closing only warns. -/
theorem closeFrom_metrics (index : Nat) (error? : Option Error)
    (seats : List (Option (Sandbox σ))) (j : Journal) :
    (closeFrom index error? seats j).2.metrics = j.metrics := by
  induction seats generalizing index error? j with
  | nil => rfl
  | cons seat rest ih =>
    cases seat with
    | none => exact ih (index + 1) _ (j.warn (.closeFailed index .closed))
    | some s => exact ih (index + 1) error? j

/-- A handle of the pool on the recording engine. -/
theorem seat_watched (p : Pool σ) (index : Nat) :
    (⟨p.watched.seat index, p.watched.journal⟩ : Handle (σ × List Event)) =
      Handle.watched ⟨p.seat index, p.journal⟩ := by
  simp only [seat, watched, Handle.watched, List.getD_eq_getElem?_getD, List.getElem?_map]
  cases p.seats[index]? <;> rfl

/-- Before any call is made, nothing is logged. -/
@[simp] theorem log_watched (p : Pool σ) : p.watched.log = [] := by
  simp only [log, logs, watched, List.flatten_eq_nil_iff, List.mem_map]
  rintro _ ⟨_, ⟨_ | s, -, rfl⟩, rfl⟩ <;> rfl

/-- What is logged on the handles when one of them has been used. -/
theorem log_onSeat_watched {α : Type} (p : Pool σ) {index : Nat} (hindex : index < p.size)
    (act : Handle (σ × List Event) → α × Handle (σ × List Event)) :
    (p.watched.onSeat index act).2.log =
      (act (Handle.watched ⟨p.seat index, p.journal⟩)).2.log := by
  have hquiet := List.flatten_eq_nil_iff.mp p.log_watched
  have hsize : index < p.watched.logs.length := by simpa [watched, logs, size] using hindex
  have hlogs : (p.watched.onSeat index act).2.logs =
      p.watched.logs.set index (act (Handle.watched ⟨p.seat index, p.journal⟩)).2.log := by
    rw [← seat_watched]
    exact List.map_set
  have hbefore : (p.watched.logs.take index).flatten = [] :=
    List.flatten_eq_nil_iff.mpr fun log hlog => hquiet log (List.mem_of_mem_take hlog)
  have hafter : (p.watched.logs.drop (index + 1)).flatten = [] :=
    List.flatten_eq_nil_iff.mpr fun log hlog => hquiet log (List.mem_of_mem_drop hlog)
  rw [log, hlogs, List.set_eq_take_append_cons_drop, if_pos hsize, List.flatten_append,
    List.flatten_cons, hbefore, hafter, List.nil_append, List.append_nil]

/-- A request on a pool is written down as it is on the handle that serves it. -/
theorem page_request (engine : Engine σ) (p : Pool σ) (index : Nat) (a : Attempt) :
    p.page engine index (.analyzeRaw a) =
      Handle.page engine ⟨p.seat index, p.journal⟩ (.analyzeRaw a) := by
  by_cases hindex : index < p.size
  · rw [page, Handle.page, act, log_onSeat_watched p hindex]
  · have hseat : p.seat index = none := seat_eq_none_of_le (by omega)
    have hlog : (p.watched.act engine.recording index (.analyzeRaw a)).2.log = p.watched.log := by
      have hout : p.watched.seats.length ≤ index := by simpa [watched, size] using hindex
      simp [act, onSeat, log, logs, List.set_eq_of_length_le hout]
    rw [Handle.page_of_refused engine (.inr ⟨hseat, by simp⟩), page, hlog, log_watched, hseat]
    simp [Handle.own?]

/-- What an action changes in the counters of a pool is written down, unless it sets them back. -/
theorem act_metrics (engine : Engine σ) (p : Pool σ) (index : Nat) {action : Action}
    (hreset : action ≠ .reset) :
    (p.page engine index action).Page ∧
      (p.act engine index action).2.journal.metrics =
        p.journal.metrics.add (p.page engine index action).metrics := by
  have hrequest : ∀ a, (p.page engine index (.analyzeRaw a)).Page ∧
      (p.act engine index (.analyzeRaw a)).2.journal.metrics =
        p.journal.metrics.add (p.page engine index (.analyzeRaw a)).metrics := by
    intro a
    rw [page_request]
    exact Handle.act_metrics engine ⟨p.seat index, p.journal⟩ (by simp)
  cases action with
  | analyze a => exact hrequest a
  | analyzeRaw a => exact hrequest a
  | close =>
    have hpage : p.page engine index .close = {} := by
      simp [page, Handle.own?, act, close, log, logs]
    rw [hpage, Metrics.add_blank]
    exact ⟨.blank, closeFrom_metrics 0 none p.seats p.journal⟩
  | reset => exact absurd rfl hreset

end Pool

/-! ### Both -/

/-- What serves requests. -/
inductive Host (σ : Type) where
  | handle (h : Handle σ)
  | pool (p : Pool σ)

namespace Host

/-- What has been noted. -/
def journal : Host σ → Journal
  | .handle h => h.journal
  | .pool p => p.journal

/-- Does something, on the handle with this index if the host is a pool. -/
def act (engine : Engine σ) (host : Host σ) (index : Nat) (action : Action) : Host σ :=
  match host with
  | .handle h => .handle (h.act engine action).2
  | .pool p => .pool (p.act engine index action).2

/-- What is written down of an action. -/
def page (engine : Engine σ) (host : Host σ) (index : Nat) (action : Action) : Account :=
  match host with
  | .handle h => h.page engine action
  | .pool p => p.page engine index action

/-- The host after actions, one after the other, each with the index of its handle. -/
def perform (engine : Engine σ) : Host σ → List (Nat × Action) → Host σ
  | host, [] => host
  | host, (index, action) :: rest => perform engine (host.act engine index action) rest

/-- The account of actions, given the account before them. -/
def account (engine : Engine σ) : Host σ → Account → List (Nat × Action) → Account
  | _, a, [] => a
  | host, a, (index, action) :: rest =>
    account engine (host.act engine index action) (a.after (host.page engine index action) action)
      rest

/-- What an action changes in the counters is written down, unless it sets them back. -/
theorem act_metrics (engine : Engine σ) (host : Host σ) (index : Nat) {action : Action}
    (hreset : action ≠ .reset) :
    (host.page engine index action).Page ∧
      (host.act engine index action).journal.metrics =
        host.journal.metrics.add (host.page engine index action).metrics := by
  cases host with
  | handle h => exact h.act_metrics engine hreset
  | pool p => exact p.act_metrics engine index hreset

/-- An action keeps the account right. -/
theorem metrics_act (engine : Engine σ) {host : Host σ} {a : Account} (index : Nat)
    (action : Action) (hmetrics : host.journal.metrics = a.metrics) (hsettled : a.Settled) :
    (host.act engine index action).journal.metrics =
        (a.after (host.page engine index action) action).metrics ∧
      (a.after (host.page engine index action) action).Settled := by
  have happend : action ≠ .reset → (host.act engine index action).journal.metrics =
      (a.append (host.page engine index action)).metrics ∧
        (a.append (host.page engine index action)).Settled := by
    intro hreset
    obtain ⟨hpage, hact⟩ := host.act_metrics engine index hreset
    rw [hact, hmetrics, hsettled.metrics_append]
    exact ⟨rfl, hsettled.append hpage.settled⟩
  cases action with
  | analyze a => exact happend (by simp)
  | analyzeRaw a => exact happend (by simp)
  | close => exact happend (by simp)
  | reset =>
    refine ⟨?_, Account.settled_empty⟩
    cases host <;> rfl

/-- Actions keep the account right. -/
theorem metrics_perform (engine : Engine σ) {host : Host σ} {a : Account}
    (actions : List (Nat × Action)) (hmetrics : host.journal.metrics = a.metrics)
    (hsettled : a.Settled) :
    (host.perform engine actions).journal.metrics = (host.account engine a actions).metrics ∧
      (host.account engine a actions).Settled := by
  induction actions generalizing host a with
  | nil => exact ⟨hmetrics, hsettled⟩
  | cons first rest ih =>
    obtain ⟨hnext, hstill⟩ := metrics_act engine first.1 first.2 hmetrics hsettled
    exact ih hnext hstill

/-- After any actions on a handle or on a pool whose counters were zero, the counters show what has
been written down since they were last set back: the requests that reached the sandbox, those of
them that it answered with an error, the buffers that the engine gave, those that were given back as
input and as result, the releases that trapped, and the bytes of all results. No input buffer is
outstanding, and while the requests can be counted, the counters keep the order of what they
count. -/
theorem metrics_eq_account (engine : Engine σ) (host : Host σ) (hzero : host.journal.metrics = {})
    (actions : List (Nat × Action)) :
    let account := host.account engine {} actions
    let metrics := (host.perform engine actions).journal.metrics
    metrics = account.metrics ∧ metrics.outstanding = 0 ∧
      (account.answers.length < 2 ^ 64 →
        metrics.failures ≤ metrics.calls ∧ metrics.resultReleases ≤ metrics.allocations ∧
          metrics.allocations = metrics.deallocations ∧ metrics.deallocations ≤ metrics.calls) := by
  intro account metrics
  obtain ⟨hmetrics, hsettled⟩ : metrics = account.metrics ∧ account.Settled :=
    metrics_perform engine actions hzero Account.settled_empty
  rw [hmetrics]
  exact ⟨rfl, hsettled.outstanding_metrics, hsettled.metrics_le⟩

/-- On a pool whose engine traps at every release: a request before the counters are set back, one
whose caller gives up meanwhile, one whose caller had given up before, and one after the closing. -/
theorem metrics_eq_account_trapping :
    let engine := Sandbox.emptyObjectEngine fun _ _ s => (.trapped, s)
    let fresh : Option (Sandbox Unit) := some ⟨.zeros 1, ()⟩
    let host : Host Unit := .pool { seats := [fresh, fresh], seats_ne_nil := by simp }
    let request : Request := ⟨[96], .empty⟩
    let actions : List (Nat × Action) := [(0, .analyze ⟨request, false, false⟩), (0, .reset),
      (1, .analyzeRaw ⟨request, false, true⟩), (0, .analyzeRaw ⟨request, true, true⟩), (0, .close),
      (0, .analyze ⟨request, false, false⟩)]
    let metrics := (host.perform engine actions).journal.metrics
    metrics = {
        calls := 1, allocations := 1, deallocations := 1, resultReleases := 1, cleanupFailures := 2,
        payloadBytes := 2 } ∧
      metrics.outstanding = 0 ∧ metrics.deallocations ≤ metrics.calls := by
  intro engine fresh host request actions metrics
  obtain ⟨hmetrics, houtstanding, horder⟩ := metrics_eq_account engine host rfl actions
  have haccount : (host.account engine {} actions).metrics = {
      calls := 1, allocations := 1, deallocations := 1, resultReleases := 1, cleanupFailures := 2,
      payloadBytes := 2 } := by
    decide +kernel
  have hfew : (host.account engine {} actions).answers.length < 2 ^ 64 := by
    decide +kernel
  exact ⟨hmetrics.trans haccount, houtstanding, (horder hfew).2.2.2⟩

end Host

end EngineHost
