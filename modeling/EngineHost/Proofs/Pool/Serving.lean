import EngineHost.Proofs.Pool.Traffic

/-!
# Sandboxes of a shared pool

Whatever goes on on a pool, each of its sandboxes sees one analysis after another. While an analysis
is under way, nobody else is in the sandbox and it cannot be closed, for the lock of its handle is
held. So each analysis answers what its sandbox answers after those that it has been through.
-/

namespace EngineHost

variable {σ : Type}

/-- The sandboxes that analyses make of a fresh one. -/
inductive Sandbox.Served (engine : Engine σ) (fresh : Sandbox σ) : Sandbox σ → Prop where
  | fresh : Served engine fresh fresh
  | analyzed {s : Sandbox σ} (hserved : Served engine fresh s) (code : Bytes) (mask : UInt32)
    (j : Journal) : Served engine fresh (analyze engine code mask s j).2.1

/-- A sandbox that has given an input buffer for this code, and had only whole analyses before. -/
def Sandbox.Begun (engine : Engine σ) (fresh : Sandbox σ) (code : Bytes) (input : UInt32)
    (s : Sandbox σ) : Prop :=
  ∃ before j, Served engine fresh before ∧ (begin engine code before j).1 = .ok input ∧
    (begin engine code before j).2.1 = s

namespace Traffic

variable {ι κ : Type}

/-! ### What the sandboxes have been through -/

/-- A sandbox in which nobody is has had whole analyses only. One in which a request is has had
whole analyses and the first half of the request's. And each analysis that has ended has answered
what a sandbox answers that has had whole analyses only. -/
structure Tended (engine : Engine σ) (fresh : Sandbox σ) (requests : ι → Request)
    (s : Traffic σ ι κ) : Prop where
  idle : ∀ i sandbox, s.pool.seat i = some sandbox →
    (∀ c input, (s.stages c).run? ≠ some (i, input)) → Sandbox.Served engine fresh sandbox
  busy : ∀ c i input, (s.stages c).run? = some (i, input) →
    ∃ sandbox, s.pool.seat i = some sandbox ∧
      Sandbox.Begun engine fresh (requests c).code input sandbox
  told : ∀ c i result, .finished c i result ∈ s.log →
    ∃ before, Sandbox.Served engine fresh before ∧
      Sandbox.answer engine (requests c).code (requests c).options.mask before = result

section Sandboxes

variable {engine : Engine σ} {fresh : Sandbox σ} {requests : ι → Request} {s s' : Traffic σ ι κ}

/-- Whoever holds the lock of a handle on which an analysis is under way is the one whose analysis
it is. -/
theorem Exclusive.eq_of_run? (hexclusive : Exclusive s.locked s.lockOf) {a : ι ⊕ κ} {c : ι}
    {i : Nat} {input : UInt32} (ha : s.lockOf a = some i)
    (hrun : (s.stages c).run? = some (i, input)) : a = .inl c :=
  hexclusive.apart ha (Stage.lock?_of_run? hrun)

/-- Nobody is in the sandbox of a handle whose lock is held by someone who is not. -/
theorem Exclusive.run?_ne (hexclusive : Exclusive s.locked s.lockOf) {c : ι} {i : Nat}
    (hstage : s.stages c = .holding i) (d : ι) (input : UInt32) :
    (s.stages d).run? ≠ some (i, input) := by
  intro hd
  have hlock : s.lockOf (.inl c) = some i := congrArg Stage.lock? hstage
  obtain rfl := Sum.inl.inj (hexclusive.eq_of_run? hlock hd)
  rw [hstage] at hd
  cases hd

/-- A step outside of sandboxes. -/
theorem Tended.outside (h : s.Tended engine fresh requests)
    (hseat : ∀ i, s'.pool.seat i = s.pool.seat i)
    (hrun : ∀ c, (s'.stages c).run? = (s.stages c).run?) (hlog : s'.log = s.log) :
    s'.Tended engine fresh requests where
  idle := by simpa only [hseat, hrun] using h.idle
  busy := by simpa only [hseat, hrun] using h.busy
  told := by simpa only [hlog] using h.told

/-- A step in the sandbox of handle `i`. -/
theorem Tended.inside (h : s.Tended engine fresh requests) (i : Nat)
    (hseat : ∀ j, j ≠ i → s'.pool.seat j = s.pool.seat j)
    (hrun : ∀ c j input, j ≠ i →
      ((s'.stages c).run? = some (j, input) ↔ (s.stages c).run? = some (j, input)))
    (hidle : ∀ sandbox, s'.pool.seat i = some sandbox →
      (∀ c input, (s'.stages c).run? ≠ some (i, input)) → Sandbox.Served engine fresh sandbox)
    (hbusy : ∀ c input, (s'.stages c).run? = some (i, input) →
      ∃ sandbox, s'.pool.seat i = some sandbox ∧
        Sandbox.Begun engine fresh (requests c).code input sandbox)
    (htold : ∀ c j result, .finished c j result ∈ s'.log → .finished c j result ∈ s.log ∨
      ∃ before, Sandbox.Served engine fresh before ∧
        Sandbox.answer engine (requests c).code (requests c).options.mask before = result) :
    s'.Tended engine fresh requests where
  idle := by
    intro j sandbox hj hnobody
    by_cases hji : j = i
    · subst hji
      exact hidle sandbox hj hnobody
    · rw [hseat j hji] at hj
      refine h.idle j sandbox hj fun c input hc => ?_
      exact hnobody c input ((hrun c j input hji).mpr hc)
  busy := by
    intro c j input hc
    by_cases hji : j = i
    · subst hji
      exact hbusy c input hc
    · rw [hseat j hji]
      exact h.busy c j input ((hrun c j input hji).mp hc)
  told := by
    intro c j result hmem
    rcases htold c j result hmem with hbefore | hnew
    · exact h.told c j result hbefore
    · exact hnew

variable [DecidableEq ι]

/-- A request that goes on outside of sandboxes does not change what is under way. -/
theorem run?_update {stages : ι → Stage} {c : ι} {stage next : Stage} (hstage : stages c = stage)
    (hrun : stage.run? = next.run?) (d : ι) :
    (Function.update stages c next d).run? = (stages d).run? := by
  by_cases hd : d = c
  · subst hd
    rw [Function.update_self, hstage, hrun]
  · rw [Function.update_of_ne hd]

/-- A request that is turned away at a closed handle leaves all sandboxes as they were. -/
theorem Tended.refuse (h : s.Tended engine fresh requests) {c : ι} {i : Nat} {stage : Stage}
    (hstage : s.stages c = .holding i) (hclosed : s.pool.seat i = none)
    (hnext : stage.run? = none) :
    ((s.setPool (s.pool.beginAt engine i (requests c) false).2 []).setStage c stage).Tended
      engine fresh requests := by
  have hseat : ∀ j, (s.pool.beginAt engine i (requests c) false).2.seat j = s.pool.seat j := by
    intro j
    by_cases hj : j = i
    · subst hj
      rw [hclosed, Pool.beginAt, Pool.seat_onSeat_eq_none (fun _ => rfl) hclosed]
    · rw [Pool.beginAt, Pool.seat_onSeat_of_ne hj]
  exact h.outside hseat (run?_update hstage hnext.symm) (List.append_nil _)

/-- An analysis that ends with its first half. -/
theorem Tended.fail (h : s.Tended engine fresh requests) (hexclusive : Exclusive s.locked s.lockOf)
    {c : ι} {i : Nat} {e : Error} (hi : i < s.pool.size) (hstage : s.stages c = .holding i)
    (hopen : (s.pool.seat i).isSome)
    (hbegin : (s.pool.beginAt engine i (requests c) false).1 = .error e) :
    ((s.setPool (s.pool.beginAt engine i (requests c) false).2
      [.started c i, .finished c i (.error e)]).setStage c (.leaving i (.error e))).Tended
      engine fresh requests := by
  obtain ⟨before, hbefore⟩ := Option.isSome_iff_exists.mp hopen
  obtain ⟨hanswer, hafter, -⟩ := Pool.beginAt_of_open engine (requests c) hi hbefore
  rw [hanswer] at hbegin
  obtain ⟨hresult, hsandbox⟩ :=
    Sandbox.analyze_of_begin_error hbegin (requests c).options.mask
  have hnobody := hexclusive.run?_ne hstage
  have hserved := h.idle i before hbefore hnobody
  have hrun : ∀ d, (Function.update s.stages c (.leaving i (.error e)) d).run? =
      (s.stages d).run? := run?_update hstage rfl
  have hothers : ∀ j, j ≠ i →
      (s.pool.beginAt engine i (requests c) false).2.seat j = s.pool.seat j := fun j hj =>
    Pool.seat_onSeat_of_ne hj _
  refine h.inside i hothers (fun d j input _ => ?_)
    (fun sandbox hseat _ => ?_) (fun d input hd => ?_) (fun d j result hmem => ?_)
  · exact iff_of_eq (congrArg (· = _) (hrun d))
  · have heq : some sandbox = some _ := hseat.symm.trans hafter
    rw [Option.some.inj heq, ← hsandbox]
    exact .analyzed hserved _ _ _
  · exact absurd ((hrun d).symm.trans hd) (hnobody d input)
  · rcases List.mem_append.mp hmem with hold | hnew
    · exact .inl hold
    · simp only [List.mem_cons, reduceCtorEq, RunEvent.finished.injEq, List.not_mem_nil, or_false,
        false_or] at hnew
      obtain ⟨rfl, rfl, rfl⟩ := hnew
      exact .inr ⟨before, hserved, hresult⟩

/-- An analysis whose first half succeeds. -/
theorem Tended.begin (h : s.Tended engine fresh requests) (hexclusive : Exclusive s.locked s.lockOf)
    {c : ι} {i : Nat} {input : UInt32} (hi : i < s.pool.size) (hstage : s.stages c = .holding i)
    (hbegin : (s.pool.beginAt engine i (requests c) false).1 = .ok input) :
    ((s.setPool (s.pool.beginAt engine i (requests c) false).2 [.started c i]).setStage c
      (.running i input)).Tended engine fresh requests := by
  have hnobody := hexclusive.run?_ne hstage
  have hothers : ∀ j, j ≠ i →
      (s.pool.beginAt engine i (requests c) false).2.seat j = s.pool.seat j := fun j hj =>
    Pool.seat_onSeat_of_ne hj _
  refine h.inside i hothers (fun d j given hj => ?_) (fun sandbox _ hidle => ?_)
    (fun d given hd => ?_) (fun d j result hmem => ?_)
  · by_cases hd : d = c
    · subst hd
      simp [setPool, setStage, hstage, Stage.run?, hj.symm]
    · simp [setPool, setStage, hd]
  · exact absurd (congrArg Stage.run? (Function.update_self c _ s.stages)) (hidle c input)
  · by_cases hdc : d = c
    · subst hdc
      cases hseat : s.pool.seat i with
      | none =>
        rw [(Pool.beginAt_of_closed engine (requests d) hseat).1] at hbegin
        cases hbegin
      | some before =>
        obtain ⟨hanswer, hafter, -⟩ := Pool.beginAt_of_open engine (requests d) hi hseat
        rw [hanswer] at hbegin
        obtain rfl : input = given := by simpa [setStage, Stage.run?] using hd
        exact ⟨_, hafter, before, s.pool.journal, h.idle i before hseat hnobody, hbegin, rfl⟩
    · have hbefore : (s.stages d).run? = some (i, given) := by
        simpa [setPool, setStage, hdc] using hd
      exact absurd hbefore (hnobody d given)
  · exact .inl (by simpa [setPool, setStage] using hmem)

/-- The second half of an analysis. -/
theorem Tended.complete (h : s.Tended engine fresh requests)
    (hexclusive : Exclusive s.locked s.lockOf) {c : ι} {i : Nat} {input : UInt32}
    {result : Except Error Bytes} (hi : i < s.pool.size) (hstage : s.stages c = .running i input)
    (hcomplete : (s.pool.completeAt engine i (requests c) input false).1 = result) :
    ((s.setPool (s.pool.completeAt engine i (requests c) input false).2
      [.finished c i result]).setStage c (.leaving i result)).Tended engine fresh requests := by
  -- The sandbox is still as the first half left it, whatever else has been noted since.
  obtain ⟨_, hseat, before, j, hserved, hbegin, rfl⟩ :=
    h.busy c i input (congrArg Stage.run? hstage)
  obtain ⟨hanswer, hafter, -⟩ := Pool.completeAt_of_open engine (requests c) hi hseat input
  obtain ⟨hresult, hended⟩ :=
    Sandbox.analyze_of_begin_ok hbegin (requests c).options.mask s.pool.journal
  have hothers : ∀ j, j ≠ i →
      (s.pool.completeAt engine i (requests c) input false).2.seat j = s.pool.seat j := fun j hj =>
    Pool.seat_onSeat_of_ne hj _
  refine h.inside i hothers (fun d j given hj => ?_) (fun sandbox hnow _ => ?_)
    (fun d given hd => ?_) (fun d j told hmem => ?_)
  · by_cases hd : d = c
    · subst hd
      simp [setPool, setStage, hstage, Stage.run?, hj.symm]
    · simp [setPool, setStage, hd]
  · have heq : some sandbox = some _ := hnow.symm.trans hafter
    rw [Option.some.inj heq, ← hended]
    exact .analyzed hserved _ _ _
  · by_cases hdc : d = c
    · subst hdc
      simp [setStage, Stage.run?] at hd
    · have hbefore : (s.stages d).run? = some (i, given) := by
        simpa [setPool, setStage, hdc] using hd
      have hlock : s.lockOf (.inl c) = some i := congrArg Stage.lock? hstage
      exact absurd (Sum.inl.inj (hexclusive.eq_of_run? hlock hbefore)).symm hdc
  · rcases List.mem_append.mp hmem with hold | hnew
    · exact .inl hold
    · simp only [List.mem_singleton, RunEvent.finished.injEq] at hnew
      obtain ⟨rfl, rfl, rfl⟩ := hnew
      exact .inr ⟨before, hserved, by rw [hresult, ← hcomplete, hanswer]⟩

variable [DecidableEq κ]

omit [DecidableEq ι] in
/-- A handle is closed, while nobody is in its sandbox. -/
theorem Tended.close (h : s.Tended engine fresh requests)
    (hexclusive : Exclusive s.locked s.lockOf) {k : κ} {i : Nat} {error? : Option Error}
    {next : Closing} (hi : i < s.pool.size) (hclosing : s.closings k = .holding i error?) :
    ((s.setPool (s.pool.onSeat i Handle.close).2 []).setClosing k next).Tended
      engine fresh requests := by
  have hothers : ∀ j, j ≠ i → (s.pool.onSeat i Handle.close).2.seat j = s.pool.seat j :=
    fun j hj => Pool.seat_onSeat_of_ne hj _
  have hnone : (s.pool.onSeat i Handle.close).2.seat i = none := by
    rw [Pool.seat_onSeat_self hi]
    cases s.pool.seat i <;> rfl
  refine h.inside i hothers (fun d j given _ => Iff.rfl) (fun sandbox hnow _ => ?_)
    (fun d given hd => ?_) (fun d j told hmem => .inl (by simpa [setPool, setClosing] using hmem))
  · cases hnow.symm.trans hnone
  · have hlock : s.lockOf (.inr k) = some i := congrArg Closing.lock? hclosing
    cases hexclusive.eq_of_run? hlock hd

/-- Every step keeps the sandboxes tended. -/
theorem Step.tended (hstep : Step engine requests s s') (hexclusive : Exclusive s.locked s.lockOf)
    (hrange : s.InRange) (h : s.Tended engine fresh requests) :
    s'.Tended engine fresh requests := by
  cases hstep with
  | giveUp | closeTake | closeDone => exact h.outside (fun _ => rfl) (fun _ => rfl) rfl
  | @closeLeave k i error? outcome hclosing =>
    refine h.outside (fun _ => ?_) (fun _ => rfl) (List.append_nil _)
    cases outcome <;> rfl
  | move c hmoves => exact h.outside (fun _ => rfl) (run?_update rfl hmoves.run?_eq) rfl
  | turn c hstage => exact h.outside (fun _ => rfl) (run?_update hstage rfl) (List.append_nil _)
  | take c hstage hfree =>
    rcases hstage with hstage | hstage
    · exact h.outside (fun _ => rfl) (run?_update hstage rfl) rfl
    · exact h.outside (fun _ => rfl) (run?_update hstage rfl) rfl
  | leave c hstage => exact h.outside (fun _ => rfl) (run?_update hstage rfl) rfl
  | refuse c hstage hclosed hbegin => exact h.refuse hstage hclosed rfl
  | fail c hstage hopen hbegin =>
    exact h.fail hexclusive (hrange.stage c _ (congrArg Stage.index? hstage)) hstage hopen hbegin
  | begin c hstage hbegin =>
    exact h.begin hexclusive (hrange.stage c _ (congrArg Stage.index? hstage)) hstage hbegin
  | complete c hstage hcomplete =>
    exact h.complete hexclusive (hrange.stage c _ (congrArg Stage.index? hstage)) hstage hcomplete
  | close k hclosing =>
    exact h.close hexclusive (hrange.closing k _ (congrArg Closing.lock? hclosing)) hclosing

end Sandboxes

end Traffic

end EngineHost
