import EngineHost.Proofs.Pool.Safety
import Mathlib.Data.List.Nodup

/-!
# Closing a shared pool

A closing goes from handle to handle, and between any two of its steps there may be steps of
requests and of other closings. So several closings may share the sandboxes among themselves, and
then none of them has closed the pool. What can be relied on is that each sandbox is taken out once,
that a closing succeeds only if it has taken out all of them, and that the pool is shut when the
first closing returns, whatever it returns.
-/

namespace EngineHost

namespace Closing

/-- How many handles a closing is through with, in a pool of `size` handles. -/
def passed (size : Nat) : Closing → Nat
  | .nearing i _ | .holding i _ => i
  | .leaving i .. => i + 1
  | .done _ => size

/-- The first error that a closing has met. -/
def fault? : Closing → Option Error
  | .nearing _ error? | .holding _ error? => error?
  | .leaving _ error? outcome => error?.or (failure? outcome)
  | .done outcome => failure? outcome

/-- The failure in the answer of a closing is its first error. -/
@[simp] theorem failure?_answer (error? : Option Error) : failure? (answer error?) = error? := by
  cases error? <;> rfl

end Closing

/-! ### Handles stay open -/

/-- The first half of a call neither opens nor closes a handle. -/
theorem Handle.isSome_begin {σ : Type} (engine : Engine σ) (h : Handle σ) (request : Request)
    (cancelled : Bool) :
    (h.begin engine request cancelled).2.sandbox.isSome = h.sandbox.isSome := by
  obtain ⟨_ | s, j⟩ := h
  · cases cancelled <;> rfl
  · unfold Handle.begin
    cases cancelled with
    | true => rfl
    | false =>
      dsimp only
      rcases Sandbox.begin engine request.code s j with ⟨e | input, after, noted⟩ <;> rfl

/-- The second half of a call neither opens nor closes a handle. -/
theorem Handle.isSome_complete {σ : Type} (engine : Engine σ) (h : Handle σ) (request : Request)
    (input : UInt32) (cancelled : Bool) :
    (h.complete engine request input cancelled).2.sandbox.isSome = h.sandbox.isSome := by
  obtain ⟨_ | s, j⟩ := h
  · rfl
  · unfold Handle.complete
    dsimp only
    rcases Sandbox.complete engine input request.code request.options.mask s j with
      ⟨e | bytes, after, noted⟩ <;> rfl

namespace Pool

variable {σ : Type} {p : Pool σ}

/-- An open handle is one of the pool. -/
theorem lt_size_of_isSome {i : Nat} (hopen : (p.seat i).isSome) : i < p.size := by
  by_contra hi
  rw [seat_eq_none_of_le (by omega)] at hopen
  cases hopen

/-- What neither opens nor closes a handle does not do so in a pool. -/
theorem isSome_seat_onSeat {α : Type} {act : Handle σ → α × Handle σ}
    (hact : ∀ h, (act h).2.sandbox.isSome = h.sandbox.isSome) (index i : Nat) :
    ((p.onSeat index act).2.seat i).isSome = (p.seat i).isSome := by
  by_cases hi : i < p.size
  · by_cases hindex : i = index
    · subst hindex
      rw [seat_onSeat_self hi, hact]
    · rw [seat_onSeat_of_ne hindex]
  · rw [seat_eq_none_of_le (p := p) (by omega), seat_eq_none_of_le (by rw [size_onSeat]; omega)]

/-- The first half of a call closes no handle and opens none. -/
theorem isSome_seat_beginAt (p : Pool σ) (engine : Engine σ) (request : Request)
    (cancelled : Bool) (index i : Nat) :
    ((p.beginAt engine index request cancelled).2.seat i).isSome = (p.seat i).isSome :=
  isSome_seat_onSeat (fun h => h.isSome_begin engine request cancelled) index i

/-- The second half of a call closes no handle and opens none. -/
theorem isSome_seat_completeAt (p : Pool σ) (engine : Engine σ) (request : Request)
    (input : UInt32) (cancelled : Bool) (index i : Nat) :
    ((p.completeAt engine index request input cancelled).2.seat i).isSome = (p.seat i).isSome :=
  isSome_seat_onSeat (fun h => h.isSome_complete engine request input cancelled) index i

/-- Closing a handle that is closed changes no handle. -/
theorem onSeat_close_of_closed {i : Nat} (hclosed : p.seat i = none) :
    (p.onSeat i Handle.close).1 = .error .closed ∧
      ∀ j, (p.onSeat i Handle.close).2.seat j = p.seat j := by
  refine ⟨by rw [onSeat_fst, hclosed]; rfl, fun j => ?_⟩
  by_cases hj : j = i
  · subst hj
    rw [hclosed, seat_onSeat_eq_none (fun _ => rfl) hclosed]
  · rw [seat_onSeat_of_ne hj]

/-- Closing a handle that is open takes its sandbox out, and no other. -/
theorem onSeat_close_of_open {i : Nat} (hopen : (p.seat i).isSome) :
    (p.onSeat i Handle.close).1 = .ok () ∧ (p.onSeat i Handle.close).2.seat i = none ∧
      ∀ j, j ≠ i → (p.onSeat i Handle.close).2.seat j = p.seat j := by
  obtain ⟨sandbox, hseat⟩ := Option.isSome_iff_exists.mp hopen
  refine ⟨by rw [onSeat_fst, hseat]; rfl, ?_, fun j hj => seat_onSeat_of_ne hj _⟩
  rw [seat_onSeat_self (lt_size_of_isSome hopen), hseat]
  rfl

/-- A pool is opened with as many fresh sandboxes as are asked for, and with one at least. -/
theorem seats_of_ofBlueprint {b : Blueprint σ} {count : Nat}
    (hpool : ofBlueprint b count = .ok p) :
    ∃ fresh, b.instantiate = .ok fresh ∧ p.seats = List.replicate (max count 1) (some fresh) := by
  unfold ofBlueprint at hpool
  split at hpool
  case h_1 => cases hpool
  case h_2 fresh hfresh =>
    rw [openSeats_eq_ok hfresh] at hpool
    cases hpool
    have hcount : max count 1 = count - 1 + 1 := by omega
    exact ⟨fresh, hfresh, by rw [hcount, List.replicate_succ]⟩

/-- All handles of a pool that has just been opened are open. -/
theorem isSome_seat_of_ofBlueprint {b : Blueprint σ} {count : Nat}
    (hpool : ofBlueprint b count = .ok p) {i : Nat} (hi : i < p.size) : (p.seat i).isSome := by
  obtain ⟨fresh, -, hseats⟩ := seats_of_ofBlueprint hpool
  rw [size, hseats, List.length_replicate] at hi
  simp [seat, hseats, List.getD_eq_getElem?_getD, hi]

end Pool

namespace Traffic

variable {σ ι κ : Type} {s s' : Traffic σ ι κ}

/-! ### Handles that closings have been at -/

/-- A step that leaves each handle open or closed, as it was. -/
def Keeps (s s' : Traffic σ ι κ) : Prop :=
  ∀ i, (s'.pool.seat i).isSome = (s.pool.seat i).isSome

/-- After such a step, the same handles are closed. -/
theorem Keeps.seat_eq_none_iff (hkeeps : Keeps s s') (i : Nat) :
    s'.pool.seat i = none ↔ s.pool.seat i = none := by
  rw [← Option.isNone_iff_eq_none, ← Option.isNone_iff_eq_none, ← Option.not_isSome,
    ← Option.not_isSome, hkeeps i]

/-- If the sandboxes in `taken` have been taken out: none of them twice, those handles are closed
and no others, every handle is closed that a closing is through with, and a closing has met no error
just if it has taken out all sandboxes on its way itself. -/
structure Accounted (taken : List (κ × Nat)) (s : Traffic σ ι κ) : Prop where
  nodup : (taken.map (·.2)).Nodup
  mem_iff : ∀ i, i ∈ taken.map (·.2) ↔ i < s.pool.size ∧ s.pool.seat i = none
  within : ∀ k i, (k, i) ∈ taken → i < (s.closings k).passed s.pool.size
  behind : ∀ k i, i < (s.closings k).passed s.pool.size → s.pool.seat i = none
  fault : ∀ k, (s.closings k).fault? = none ∨ (s.closings k).fault? = some .closed
  own : ∀ k, (s.closings k).fault? = none ↔
    ∀ i, i < (s.closings k).passed s.pool.size → (k, i) ∈ taken

namespace Accounted

variable {taken : List (κ × Nat)}

/-- No closing comes further, and no handle is closed. -/
theorem quiet (h : Accounted taken s) (hsize : s'.pool.size = s.pool.size) (hkeeps : Keeps s s')
    (hpassed : ∀ k, (s'.closings k).passed s.pool.size = (s.closings k).passed s.pool.size)
    (hfault : ∀ k, (s'.closings k).fault? = (s.closings k).fault?) : Accounted taken s' := by
  have hnone := hkeeps.seat_eq_none_iff
  exact {
    nodup := h.nodup
    mem_iff := by simpa only [hsize, hnone] using h.mem_iff
    within := by simpa only [hsize, hpassed] using h.within
    behind := by simpa only [hsize, hpassed, hnone] using h.behind
    fault := by simpa only [hfault] using h.fault
    own := by simpa only [hsize, hpassed, hfault] using h.own }

/-- A closing that has returned has been at all handles, and succeeded just if it has taken out all
sandboxes itself. -/
theorem done (h : Accounted taken s) {k : κ} {outcome : Except Error Unit}
    (hdone : s.closings k = .done outcome) :
    (∀ i, s.pool.seat i = none) ∧
      (outcome = .ok () ∧ (∀ i, i < s.pool.size → (k, i) ∈ taken) ∨
        outcome = .error .closed ∧ ∃ i, i < s.pool.size ∧ (k, i) ∉ taken) := by
  have hbehind := h.behind k
  have hfault := h.fault k
  have hown := h.own k
  rw [hdone] at hbehind hfault hown
  constructor
  · intro i
    by_cases hi : i < s.pool.size
    · exact hbehind i hi
    · exact Pool.seat_eq_none_of_le (by omega)
  · cases outcome with
    | ok _ => exact .inl ⟨rfl, hown.mp rfl⟩
    | error e =>
      have hclosed : some e = some Error.closed := by
        simpa [Closing.fault?, Closing.failure?] using hfault
      refine .inr ⟨congrArg Except.error (Option.some.inj hclosed), ?_⟩
      by_contra hall
      push Not at hall
      have hnone : some e = none := hown.mpr hall
      cases hnone

/-- Two closings cannot both have taken out the sandbox of one handle. -/
theorem eq_of_mem (h : Accounted taken s) {k k' : κ} {i : Nat} (hk : (k, i) ∈ taken)
    (hk' : (k', i) ∈ taken) : k = k' := by
  have heq := List.inj_on_of_nodup_map h.nodup hk hk' rfl
  exact congrArg Prod.fst heq

variable [DecidableEq κ]

/-- A closing comes to a handle and is through with it. What the others have done is as before. -/
theorem further (h : Accounted taken s) (hsize : s'.pool.size = s.pool.size) {k : κ} {i : Nat}
    {error? : Option Error} {outcome : Except Error Unit} {news : List (κ × Nat)}
    (hclosing : s.closings k = .holding i error?)
    (hnext : s'.closings = Function.update s.closings k (.leaving i error? outcome))
    (hstays : ∀ j, s.pool.seat j = none → s'.pool.seat j = none) (hclosed : s'.pool.seat i = none)
    (hnodup : ((taken ++ news).map (·.2)).Nodup)
    (hmem : ∀ j, j ∈ (taken ++ news).map (·.2) ↔ j < s.pool.size ∧ s'.pool.seat j = none)
    (hnews : ∀ l j, (l, j) ∈ news → l = k ∧ j = i)
    (hfault : error?.or (Closing.failure? outcome) = none ∨
      error?.or (Closing.failure? outcome) = some .closed)
    (hown : error?.or (Closing.failure? outcome) = none ↔ error? = none ∧ (k, i) ∈ news) :
    Accounted (taken ++ news) s' := by
  have hself : s'.closings k = .leaving i error? outcome := by rw [hnext, Function.update_self]
  have hrest : ∀ l, l ≠ k → s'.closings l = s.closings l := fun l hl => by
    rw [hnext, Function.update_of_ne hl]
  have hpassed : (s.closings k).passed s.pool.size = i := by rw [hclosing]; rfl
  have hpassed' : (s'.closings k).passed s.pool.size = i + 1 := by rw [hself]; rfl
  -- Only the pair of this closing and this handle can be new.
  have hold : ∀ l j, (l ≠ k ∨ j ≠ i) → ((l, j) ∈ taken ++ news ↔ (l, j) ∈ taken) := by
    intro l j hne
    rw [List.mem_append, or_iff_left_iff_imp]
    intro hnew
    obtain ⟨rfl, rfl⟩ := hnews l j hnew
    simp at hne
  constructor
  case nodup => exact hnodup
  case mem_iff => rwa [hsize]
  case within =>
    intro l j hl
    rw [hsize]
    by_cases hlk : l = k
    · subst hlk
      rw [hpassed']
      by_cases hj : j = i
      · omega
      · have hbefore := h.within l j ((hold l j (.inr hj)).mp hl)
        omega
    · rw [hrest l hlk]
      exact h.within l j ((hold l j (.inl hlk)).mp hl)
  case behind =>
    intro l j hj
    rw [hsize] at hj
    by_cases hlk : l = k
    · subst hlk
      by_cases hji : j = i
      · rwa [hji]
      · exact hstays j (h.behind l j (by omega))
    · rw [hrest l hlk] at hj
      exact hstays j (h.behind l j hj)
  case fault =>
    intro l
    by_cases hlk : l = k
    · rwa [hlk, hself]
    · rw [hrest l hlk]
      exact h.fault l
  case own =>
    intro l
    rw [hsize]
    by_cases hlk : l = k
    · subst hlk
      have hbefore : error? = none ↔ ∀ j, j < i → (l, j) ∈ taken := by
        have hown := h.own l
        rwa [hpassed, hclosing] at hown
      have hlast : (l, i) ∉ taken := fun hl => by
        have := h.within l i hl
        omega
      rw [hpassed', hself]
      change error?.or (Closing.failure? outcome) = none ↔ _
      rw [hown, hbefore]
      constructor
      · rintro ⟨hall, hnew⟩ j hj
        by_cases hji : j = i
        · exact List.mem_append_right _ (hji ▸ hnew)
        · exact List.mem_append_left _ (hall j (by omega))
      · intro hall
        refine ⟨fun j hj => (hold l j (.inr (by omega))).mp (hall j (by omega)), ?_⟩
        exact (List.mem_append.mp (hall i (by omega))).resolve_left hlast
    · rw [hrest l hlk, h.own l]
      exact forall_congr' fun j => imp_congr_right fun _ => (hold l j (.inl hlk)).symm

/-- A closing takes the sandbox of a handle out. -/
theorem took (h : Accounted taken s) (hsize : s'.pool.size = s.pool.size) {k : κ} {i : Nat}
    {error? : Option Error} (hclosing : s.closings k = .holding i error?)
    (hnext : s'.closings = Function.update s.closings k (.leaving i error? (.ok ())))
    (hopen : (s.pool.seat i).isSome) (hclosed : s'.pool.seat i = none)
    (hothers : ∀ j, j ≠ i → s'.pool.seat j = s.pool.seat j) :
    Accounted (taken ++ [(k, i)]) s' := by
  have hi : i < s.pool.size := Pool.lt_size_of_isSome hopen
  have hnew : i ∉ taken.map (·.2) := by
    intro hmem
    rw [((h.mem_iff i).mp hmem).2] at hopen
    cases hopen
  have hsame : error?.or (Closing.failure? (.ok ())) = error? := Option.or_none
  refine h.further hsize hclosing hnext (fun j hj => ?_) hclosed ?_ (fun j => ?_) (by simp) ?_ ?_
  · by_cases hji : j = i
    · rwa [hji]
    · rwa [hothers j hji]
  · rw [List.map_append, List.map_singleton, List.nodup_append]
    refine ⟨h.nodup, by simp, fun j hj l hl hjl => ?_⟩
    rw [hjl, List.mem_singleton.mp hl] at hj
    exact hnew hj
  · by_cases hji : j = i
    · subst hji
      simp [hi, hclosed]
    · rw [hothers j hji, ← h.mem_iff j]
      simp [hji]
  · rw [hsame]
    have hfault := h.fault k
    rwa [hclosing] at hfault
  · simp [hsame]

/-- A closing finds that the sandbox of a handle is gone. -/
theorem missed (h : Accounted taken s) (hsize : s'.pool.size = s.pool.size) {k : κ} {i : Nat}
    {error? : Option Error} (hclosing : s.closings k = .holding i error?)
    (hnext : s'.closings = Function.update s.closings k (.leaving i error? (.error .closed)))
    (hclosed : s.pool.seat i = none) (hkeeps : Keeps s s') : Accounted taken s' := by
  have hnone := hkeeps.seat_eq_none_iff
  have hfault := h.fault k
  rw [hclosing] at hfault
  rw [← List.append_nil taken]
  refine h.further hsize hclosing hnext (fun j => (hnone j).mpr) ((hnone i).mpr hclosed)
    (by simpa using h.nodup) (fun j => ?_) (by simp) ?_ ?_
  · rw [List.append_nil, hnone]
    exact h.mem_iff j
  · rcases hfault with hfault | hfault
    · exact .inr (by rw [show error? = none from hfault]; rfl)
    · exact .inr (by rw [show error? = some .closed from hfault]; rfl)
  · cases error? <;> simp [Closing.failure?]

end Accounted

/-- In the beginning nothing has been taken out. -/
theorem accounted_opened {p : Pool σ} (hopen : ∀ i, i < p.size → (p.seat i).isSome)
    (gaveUp : ι → Bool) : Accounted [] (opened p gaveUp : Traffic σ ι κ) where
  nodup := by simp
  mem_iff := by
    intro i
    refine ⟨fun hmem => absurd hmem (by simp), fun ⟨hi, hclosed⟩ => ?_⟩
    have hsome := hopen i hi
    rw [show p.seat i = none from hclosed] at hsome
    cases hsome
  within := by simp
  behind := fun k i hi => absurd hi (Nat.not_lt_zero i)
  fault := fun k => .inl rfl
  own := fun k => ⟨fun _ i hi => absurd hi (Nat.not_lt_zero i), fun _ => rfl⟩

/-- All handles are closed, and nobody is in a sandbox. -/
structure Shut (s : Traffic σ ι κ) : Prop where
  closed : ∀ i, s.pool.seat i = none
  idle : ∀ c, (s.stages c).run? = none

/-- A sandbox in which a request is has not been taken out, so where all are gone nobody is in
one. -/
theorem Tended.shut {engine : Engine σ} {fresh : Sandbox σ} {requests : ι → Request}
    (h : s.Tended engine fresh requests)
    (hclosed : ∀ i, s.pool.seat i = none) : s.Shut := by
  refine ⟨hclosed, fun c => ?_⟩
  cases hrun : (s.stages c).run? with
  | none => rfl
  | some run =>
    obtain ⟨i, input⟩ := run
    obtain ⟨sandbox, hseat, -⟩ := h.busy c i input hrun
    rw [hclosed i] at hseat
    cases hseat

/-! ### Steps -/

variable [DecidableEq κ]

/-- What a step does to handles and closings. Most steps close no handle and bring no closing
further; the others are those of a closing that holds a lock, and either takes the sandbox out or
finds that it is gone. -/
inductive Progress (s s' : Traffic σ ι κ) : Prop where
  | quiet (hkeeps : Keeps s s')
    (hpassed : ∀ k, (s'.closings k).passed s.pool.size = (s.closings k).passed s.pool.size)
    (hfault : ∀ k, (s'.closings k).fault? = (s.closings k).fault?)
  | took (k : κ) (i : Nat) (error? : Option Error) (hclosing : s.closings k = .holding i error?)
    (hnext : s'.closings = Function.update s.closings k (.leaving i error? (.ok ())))
    (hopen : (s.pool.seat i).isSome) (hclosed : s'.pool.seat i = none)
    (hothers : ∀ j, j ≠ i → s'.pool.seat j = s.pool.seat j)
  | missed (k : κ) (i : Nat) (error? : Option Error) (hclosing : s.closings k = .holding i error?)
    (hnext : s'.closings = Function.update s.closings k (.leaving i error? (.error .closed)))
    (hclosed : s.pool.seat i = none) (hkeeps : Keeps s s')

/-- A closing that goes on without coming further. -/
theorem Progress.of_setClosing {k : κ} {closing next : Closing} (hkeeps : Keeps s s')
    (hclosing : s.closings k = closing) (hnext : s'.closings = Function.update s.closings k next)
    (hpassed : next.passed s.pool.size = closing.passed s.pool.size)
    (hfault : next.fault? = closing.fault?) : Progress s s' := by
  refine .quiet hkeeps (fun l => ?_) (fun l => ?_) <;> by_cases hl : l = k
  · rw [hnext, hl, Function.update_self, hclosing, hpassed]
  · rw [hnext, Function.update_of_ne hl]
  · rw [hnext, hl, Function.update_self, hclosing, hfault]
  · rw [hnext, Function.update_of_ne hl]

variable [DecidableEq ι] {engine : Engine σ} {requests : ι → Request}

/-- Every step is of one of these kinds. -/
theorem Step.progress (hstep : Step engine requests s s') : Progress s s' := by
  have hbegin : ∀ c i events stage,
      Keeps s
        ((s.setPool (s.pool.beginAt engine i (requests c) false).2 events).setStage c stage) :=
    fun c i _ _ => s.pool.isSome_seat_beginAt engine (requests c) false i
  cases hstep with
  | giveUp | move | turn | take | leave =>
    exact .quiet (fun _ => rfl) (fun _ => rfl) (fun _ => rfl)
  | refuse | fail | begin =>
    exact .quiet (hbegin _ _ _ _) (fun _ => rfl) (fun _ => rfl)
  | complete =>
    exact .quiet (s.pool.isSome_seat_completeAt engine _ _ _ _) (fun _ => rfl) (fun _ => rfl)
  | closeTake k hclosing => exact .of_setClosing (fun _ => rfl) hclosing rfl rfl rfl
  | @closeLeave k i error? outcome hclosing =>
    refine .of_setClosing (fun j => ?_) hclosing rfl rfl rfl
    cases outcome <;> rfl
  | closeDone k hclosing =>
    exact .of_setClosing (fun _ => rfl) hclosing rfl rfl (Closing.failure?_answer _)
  | @close k i error? hclosing =>
    cases hseat : s.pool.seat i with
    | none =>
      obtain ⟨hanswer, hsame⟩ := Pool.onSeat_close_of_closed hseat
      rw [hanswer]
      exact .missed k i error? hclosing rfl hseat fun j => congrArg Option.isSome (hsame j)
    | some sandbox =>
      have hopen : (s.pool.seat i).isSome := Option.isSome_of_eq_some hseat
      obtain ⟨hanswer, hclosed, hothers⟩ := Pool.onSeat_close_of_open hopen
      rw [hanswer]
      exact .took k i error? hclosing rfl hopen hclosed hothers

/-- A shut pool stays shut, and no analysis begins or ends on it. -/
theorem Step.shut (hstep : Step engine requests s s') (h : s.Shut) :
    s'.Shut ∧ s'.log = s.log := by
  have hclosed : ∀ i, s'.pool.seat i = none := fun i => hstep.seat_eq_none (h.closed i)
  have hstay : ∀ {c stage}, stage.run? = none → ∀ d,
      (Function.update s.stages c stage d).run? = none := fun {c stage} hstage d => by
    rw [run?_update rfl ((h.idle c).trans hstage.symm), h.idle d]
  cases hstep with
  | giveUp | closeTake | closeDone => exact ⟨⟨hclosed, h.idle⟩, rfl⟩
  | close | closeLeave => exact ⟨⟨hclosed, h.idle⟩, List.append_nil _⟩
  | move c hmoves => exact ⟨⟨hclosed, hstay (hmoves.run?_eq.symm.trans (h.idle c))⟩, rfl⟩
  | turn c hstage => exact ⟨⟨hclosed, hstay rfl⟩, List.append_nil _⟩
  | take c hstage hfree => exact ⟨⟨hclosed, hstay rfl⟩, rfl⟩
  | leave c hstage => exact ⟨⟨hclosed, hstay rfl⟩, rfl⟩
  | refuse c hstage hseat hbegin => exact ⟨⟨hclosed, hstay rfl⟩, List.append_nil _⟩
  | fail c hstage hopen hbegin =>
    rw [h.closed] at hopen
    cases hopen
  | begin c hstage hbegin =>
    rw [(Pool.beginAt_of_closed engine (requests c) (h.closed _)).1] at hbegin
    cases hbegin
  | complete c hstage hcomplete =>
    have hidle := h.idle c
    rw [hstage] at hidle
    cases hidle

/-- A pool that is shut stays so, and no further analysis ends on it. -/
theorem Reachable.shut (hreach : Reachable engine requests s s') (h : s.Shut) :
    s'.Shut ∧ s'.log = s.log := by
  refine hreach.invariant (fun s' => s'.Shut ∧ s'.log = s.log) ⟨h, rfl⟩ ?_
  rintro s₁ s₂ ⟨hshut, hlog⟩ hstep
  obtain ⟨hshut', hlog'⟩ := hstep.shut hshut
  exact ⟨hshut', hlog'.trans hlog⟩

/-! ### Runs and what is taken out on the way -/

/-- A step by which closing `k` takes the sandbox of handle `i` out. -/
structure Takes (s s' : Traffic σ ι κ) (k : κ) (i : Nat) : Prop where
  holding : ∃ error?, s.closings k = .holding i error?
  leaving : ∃ error?, s'.closings k = .leaving i error? (.ok ())
  wasOpen : (s.pool.seat i).isSome
  isClosed : s'.pool.seat i = none

/-- The runs from a state on, with the sandboxes that have been taken out on the way: by which
closing, and of which handle. -/
inductive Run (engine : Engine σ) (requests : ι → Request) (start : Traffic σ ι κ) :
    List (κ × Nat) → Traffic σ ι κ → Prop where
  | start : Run engine requests start [] start
  | keep {taken : List (κ × Nat)} {s s' : Traffic σ ι κ} (hrun : Run engine requests start taken s)
    (hstep : Step engine requests s s') (hkeeps : Keeps s s') : Run engine requests start taken s'
  | take {taken : List (κ × Nat)} {s s' : Traffic σ ι κ} {k : κ} {i : Nat}
    (hrun : Run engine requests start taken s) (hstep : Step engine requests s s')
    (htakes : Takes s s' k i) : Run engine requests start (taken ++ [(k, i)]) s'

/-- Whatever can be reached is reached by a run. -/
theorem Reachable.exists_run {start : Traffic σ ι κ} (hreach : Reachable engine requests start s) :
    ∃ taken, Run engine requests start taken s := by
  induction hreach with
  | refl => exact ⟨[], .start⟩
  | tail _ hstep ih =>
    obtain ⟨taken, hrun⟩ := ih
    cases hstep.progress with
    | quiet hkeeps => exact ⟨taken, hrun.keep hstep hkeeps⟩
    | missed k i error? hclosing hnext hclosed hkeeps => exact ⟨taken, hrun.keep hstep hkeeps⟩
    | took k i error? hclosing hnext hopen hclosed =>
      refine ⟨taken ++ [(k, i)], hrun.take hstep ⟨⟨error?, hclosing⟩, ⟨error?, ?_⟩, hopen, hclosed⟩⟩
      rw [hnext, Function.update_self]

/-- What closings take out on a run is accounted for. -/
theorem Run.accounted {start : Traffic σ ι κ} {taken : List (κ × Nat)}
    (hrun : Run engine requests start taken s) (hstart : Accounted [] start) :
    Accounted taken s := by
  induction hrun with
  | start => exact hstart
  | @keep taken s s' hrun hstep hkeeps ih =>
    cases hstep.progress with
    | quiet hkeeps hpassed hfault => exact ih.quiet hstep.size_eq hkeeps hpassed hfault
    | missed k i error? hclosing hnext hclosed =>
      exact ih.missed hstep.size_eq hclosing hnext hclosed hkeeps
    | took k i error? hclosing hnext hopen hclosed =>
      rw [(hkeeps.seat_eq_none_iff i).mp hclosed] at hopen
      cases hopen
  | @take taken s s' k i hrun hstep htakes ih =>
    have hchanges : ¬Keeps s s' := fun hkeeps => by
      have hopen := htakes.wasOpen
      rw [(hkeeps.seat_eq_none_iff i).mp htakes.isClosed] at hopen
      cases hopen
    cases hstep.progress with
    | quiet hkeeps => exact absurd hkeeps hchanges
    | missed _ _ _ _ _ _ hkeeps => exact absurd hkeeps hchanges
    | took k' i' error? hclosing hnext hopen hclosed hothers =>
      obtain ⟨_, hholding⟩ := htakes.holding
      obtain ⟨_, hleaving⟩ := htakes.leaving
      -- One handle was closed in this step, and one closing went on.
      obtain rfl : i = i' := by
        by_contra hi
        have hopen := htakes.wasOpen
        rw [← hothers i hi, htakes.isClosed] at hopen
        cases hopen
      obtain rfl : k = k' := by
        by_contra hk
        rw [hnext, Function.update_of_ne hk, hholding] at hleaving
        cases hleaving
      exact ih.took hstep.size_eq hclosing hnext hopen hclosed hothers

/-! ### From a fresh pool on -/

/-- Whatever a fresh pool goes through is sound. -/
theorem Reachable.sound {b : Blueprint σ} {size : Nat} {p : Pool σ}
    (hpool : Pool.ofBlueprint b size = .ok p) {gaveUp : ι → Bool}
    (hreach : Reachable b.engine requests (opened p gaveUp) s) :
    s.pool.size = max size 1 ∧ ∃ fresh, s.Sound b.engine fresh requests := by
  obtain ⟨fresh, -, hsize, hjournal, hseats⟩ := Pool.fresh_of_ofBlueprint hpool
  refine ⟨?_, fresh, ?_⟩
  · exact hreach.invariant (fun s => s.pool.size = max size 1) hsize
      fun _ _ hsize hstep => hstep.size_eq.trans hsize
  · exact hreach.invariant (fun s => s.Sound b.engine fresh requests)
      (sound_opened hseats hjournal gaveUp) fun _ _ hsound hstep => hstep.sound hsound

/-- However closings of a pool come between each other and between requests: the sandbox of each
handle is taken out at most once, a closing that returns has succeeded just if it has taken out all
of them itself and is otherwise told that a handle was closed, and no two closings succeed. When
the first closing has returned, whatever it returned, all handles are closed, nobody is in a
sandbox, and no analysis begins any more. -/
theorem closings_shut_pool {b : Blueprint σ} {size : Nat} {p : Pool σ}
    (hpool : Pool.ofBlueprint b size = .ok p) (requests : ι → Request) (gaveUp : ι → Bool)
    {s : Traffic σ ι κ} (hreach : Reachable b.engine requests (opened p gaveUp) s) :
    (∃ taken, Run b.engine requests (opened p gaveUp) taken s) ∧
    (∀ taken, Run b.engine requests (opened p gaveUp) taken s →
      (taken.map (·.2)).Nodup ∧
      (∀ i, i ∈ taken.map (·.2) ↔ i < max size 1 ∧ s.pool.seat i = none) ∧
      ∀ k outcome, s.closings k = .done outcome →
        outcome = .ok () ∧ (∀ i, i < max size 1 → (k, i) ∈ taken) ∨
          outcome = .error .closed ∧ ∃ i, i < max size 1 ∧ (k, i) ∉ taken) ∧
    (∀ k k', s.closings k = .done (.ok ()) → s.closings k' = .done (.ok ()) → k = k') ∧
    ∀ k outcome, s.closings k = .done outcome → ∀ s', Reachable b.engine requests s s' →
      (∀ i, s'.pool.seat i = none) ∧ (∀ c i input, s'.stages c ≠ .running i input) ∧
        s'.log = s.log := by
  obtain ⟨hsize, fresh, hsound⟩ := hreach.sound hpool
  have haccounted : ∀ taken, Run b.engine requests (opened p gaveUp) taken s →
      Accounted taken s := fun taken hrun =>
    hrun.accounted (accounted_opened (fun _ hi => Pool.isSome_seat_of_ofBlueprint hpool hi) gaveUp)
  obtain ⟨taken, hrun⟩ := hreach.exists_run
  have h := haccounted taken hrun
  rw [← hsize]
  refine ⟨⟨taken, hrun⟩, fun taken hrun => ?_, fun k k' hk hk' => ?_,
    fun k outcome hdone s' hlater => ?_⟩
  · have h := haccounted taken hrun
    exact ⟨h.nodup, h.mem_iff, fun k outcome hdone => (h.done hdone).2⟩
  · have hpositive : 0 < s.pool.size := List.length_pos_of_ne_nil s.pool.seats_ne_nil
    have htaken : ∀ {k}, s.closings k = .done (.ok ()) → (k, 0) ∈ taken := by
      intro k hk
      rcases (h.done hk).2 with ⟨-, hall⟩ | ⟨herror, -⟩
      · exact hall 0 hpositive
      · cases herror
    exact h.eq_of_mem (htaken hk) (htaken hk')
  · obtain ⟨hshut, hlog⟩ := Reachable.shut hlater (hsound.tended.shut (h.done hdone).1)
    refine ⟨hshut.closed, fun c i input hrunning => ?_, hlog⟩
    have hidle := hshut.idle c
    rw [hrunning] at hidle
    cases hidle

/-- The pool that is opened when two handles are asked for. -/
def forgetfulPair : Pool Unit where
  seats := [some ⟨.zeros 1, ()⟩, some ⟨.zeros 1, ()⟩]
  seats_ne_nil := by simp

/-- Two closings share the sandboxes of two handles, the first of which is taken out after a request
has left it. Both closings are told that a handle was closed, and the pool is shut. -/
theorem closings_shut_pool_shared :
    ∃ (s : Traffic Unit Unit Bool) (taken : List (Bool × Nat)),
      Run forgetful.engine (fun _ => ⟨[96], .empty⟩) (opened forgetfulPair fun _ => false) taken s ∧
      s.closings false = .done (.error .closed) ∧ s.closings true = .done (.error .closed) ∧
      0 ∈ taken.map (·.2) ∧ 1 ∈ taken.map (·.2) ∧
      (∃ i, i < 2 ∧ (false, i) ∉ taken) ∧ (∃ i, i < 2 ∧ (true, i) ∉ taken) ∧
      ∀ s', Reachable forgetful.engine (fun _ => ⟨[96], .empty⟩) s s' → s'.log = s.log := by
  have hpool : Pool.ofBlueprint forgetful 2 = .ok forgetfulPair := rfl
  have hrefl : Reachable forgetful.engine (fun _ => ⟨[96], .empty⟩)
      (opened forgetfulPair fun _ => false : Traffic Unit Unit Bool) _ := .refl
  have hreach := hrefl
    |>.tail (.move () (.ask rfl))
    |>.tail (.take () (.inl rfl) rfl)
    |>.tail (.begin () rfl rfl)
    |>.tail (.complete () rfl rfl)
    |>.tail (.leave () rfl)
    |>.tail (.closeTake false rfl (by decide) rfl)
    |>.tail (.close false rfl)
    |>.tail (.closeLeave false rfl)
    |>.tail (.closeTake true rfl (by decide) rfl)
    |>.tail (.close true rfl)
    |>.tail (.closeLeave true rfl)
    |>.tail (.closeTake true rfl (by decide) rfl)
    |>.tail (.close true rfl)
    |>.tail (.closeLeave true rfl)
    |>.tail (.closeDone true rfl)
    |>.tail (.closeTake false rfl (by decide) rfl)
    |>.tail (.close false rfl)
    |>.tail (.closeLeave false rfl)
    |>.tail (.closeDone false rfl)
  obtain ⟨s, hreach, hfalse, htrue⟩ : ∃ s : Traffic Unit Unit Bool,
      Reachable forgetful.engine (fun _ => ⟨[96], .empty⟩) (opened forgetfulPair fun _ => false) s ∧
      s.closings false = .done (.error .closed) ∧ s.closings true = .done (.error .closed) :=
    ⟨_, hreach, rfl, rfl⟩
  obtain ⟨⟨taken, hrun⟩, htaken, -, hafter⟩ := closings_shut_pool hpool _ _ hreach
  obtain ⟨-, hmem, hreturned⟩ := htaken taken hrun
  have hclosed := (hafter true _ htrue s .refl).1
  have hmissed : ∀ k, s.closings k = .done (.error .closed) → ∃ i, i < 2 ∧ (k, i) ∉ taken := by
    intro k hk
    rcases hreturned k _ hk with ⟨hok, -⟩ | ⟨-, hmissed⟩
    · cases hok
    · exact hmissed
  exact ⟨s, taken, hrun, hfalse, htrue, (hmem 0).mpr ⟨by decide, hclosed 0⟩,
    (hmem 1).mpr ⟨by decide, hclosed 1⟩, hmissed false hfalse, hmissed true htrue,
    fun s' hlater => (hafter true _ htrue s' hlater).2.2⟩

end Traffic

end EngineHost
