import EngineHost.Proofs.Pool.Safety

/-!
# A request that is alone on a pool

While nobody else is on the pool, a request goes through the locks without ever passing over a
handle: it takes the lock of the first one, analyzes there, leaves the lock and returns. Whatever
its caller does meanwhile, it returns what a call on the pool returns, and leaves the pool as that
call does.
-/

namespace EngineHost

/-- A caller that gives up during a call is told so unless the call fails, and the handle does not
notice. -/
theorem Handle.analyze_after {σ : Type} (engine : Engine σ) (h : Handle σ) (request : Request)
    (after : Bool) :
    h.analyze engine request false after =
      (report after (h.analyze engine request false false).1,
        (h.analyze engine request false false).2) := by
  obtain ⟨_ | s, j⟩ := h
  · rfl
  · rw [analyze_of_open, analyze_of_open, report_false]

namespace Pool

variable {σ α β : Type} {p : Pool σ} {index : Nat}

/-- What is done on a handle in two parts. -/
theorem onSeat_onSeat (hindex : index < p.size) (first : Handle σ → α × Handle σ)
    (second : Handle σ → β × Handle σ) :
    (p.onSeat index first).2.onSeat index second =
      p.onSeat index fun h => second (first h).2 := by
  rw [size] at hindex
  simp [onSeat, hindex]

/-- Only what is done with the handle as it is matters. -/
theorem onSeat_congr {act act' : Handle σ → α × Handle σ}
    (h : act ⟨p.seat index, p.journal⟩ = act' ⟨p.seat index, p.journal⟩) :
    p.onSeat index act = p.onSeat index act' := by
  rw [seat] at h
  simp only [onSeat, h]

/-- A handle on which nothing is done leaves the pool as it is. -/
theorem onSeat_unchanged (answer : α) : (p.onSeat index fun h => (answer, h)) = (answer, p) := by
  have hset : p.seats.set index (p.seats.getD index none) = p.seats := by
    by_cases hindex : index < p.seats.length
    · simp [hindex]
    · simp [List.set_eq_of_length_le (Nat.le_of_not_lt hindex)]
  simp only [onSeat, hset]

section Halves

variable {engine : Engine σ} {request : Request}

/-- A call whose caller has given up before does nothing. -/
theorem analyze_cancelled (after : Bool) :
    p.analyze engine request true after = (.error .cancelled, p) := by
  rw [analyze_eq]
  exact onSeat_unchanged _

/-- A caller that gives up during a call on a pool is told so unless the call fails. -/
theorem analyze_after (after : Bool) :
    p.analyze engine request false after =
      (Handle.report after (p.analyze engine request false false).1,
        (p.analyze engine request false false).2) := by
  have hact : (fun h : Handle σ => h.analyze engine request false after) = fun h =>
      (Handle.report after (h.analyze engine request false false).1,
        (h.analyze engine request false false).2) := by
    funext h
    exact h.analyze_after engine request after
  rw [analyze_eq, analyze_eq, hact]
  rfl

/-- A call that ends with its first half. -/
theorem analyze_of_begin_error {e : Error}
    (hbegin : (p.beginAt engine 0 request false).1 = .error e) :
    p.analyze engine request false false = (.error e, (p.beginAt engine 0 request false).2) := by
  rw [beginAt, onSeat_fst] at hbegin
  have hact : Handle.analyze engine ⟨p.seat 0, p.journal⟩ request false false =
      (.error e, (Handle.begin engine ⟨p.seat 0, p.journal⟩ request false).2) := by
    rw [Handle.analyze]
    rcases hhalf : Handle.begin engine ⟨p.seat 0, p.journal⟩ request false with ⟨e' | input, h⟩
    · rw [hhalf] at hbegin
      cases hbegin
      rfl
    · rw [hhalf] at hbegin
      cases hbegin
  have hsame : p.analyze engine request false false =
      p.onSeat 0 fun h => (.error e, (h.begin engine request false).2) := by
    rw [analyze_eq]
    exact onSeat_congr hact
  rw [hsame]
  rfl

/-- A call with both its halves. -/
theorem analyze_of_begin_ok {input : UInt32}
    (hbegin : (p.beginAt engine 0 request false).1 = .ok input) :
    p.analyze engine request false false =
      (p.beginAt engine 0 request false).2.completeAt engine 0 request input false := by
  have hsize : 0 < p.size := List.length_pos_of_ne_nil p.seats_ne_nil
  rw [beginAt, onSeat_fst] at hbegin
  rw [beginAt, completeAt, onSeat_onSeat hsize, analyze_eq]
  refine onSeat_congr ?_
  rw [Handle.analyze]
  rcases hhalf : Handle.begin engine ⟨p.seat 0, p.journal⟩ request false with ⟨e | input', h⟩
  · rw [hhalf] at hbegin
    cases hbegin
  · rw [hhalf] at hbegin
    cases hbegin
    rfl

end Halves

end Pool

namespace Traffic

variable {σ : Type} {engine : Engine σ} {request : Request} {p : Pool σ} {g : Bool}

section Updates

variable {ι κ : Type} (s : Traffic σ ι κ)

/-- A request stands at the stage that it has gone on to. -/
theorem stages_setStage_self [DecidableEq ι] (c : ι) (stage : Stage) :
    (s.setStage c stage).stages c = stage := by
  simp [setStage]

/-- A lock that has been taken is held, and one that has been left is not. -/
theorem locked_setLock_self (i : Nat) (held : Bool) : (s.setLock i held).locked i = held := by
  simp [setLock]

/-- The other locks are as they were. -/
theorem locked_setLock_of_ne {i j : Nat} (hj : j ≠ i) (held : Bool) :
    (s.setLock i held).locked j = s.locked j := by
  simp [setLock, hj]

end Updates

/-- What goes on on a pool on which there is one request and no closing. -/
abbrev Lone (σ : Type) := Traffic σ Unit Empty

/-- What has become of the pool `p` and of its locks when a request that is alone on it stands at a
stage, where `g` says whether its caller had given up before, and `gaveUp` whether it has by now. -/
def LoneAt (engine : Engine σ) (request : Request) (p : Pool σ) (g : Bool) (pool : Pool σ)
    (locked : Nat → Bool) (gaveUp : Bool) : Stage → Prop
  | .asking i => i = 0 ∧ (g = true → gaveUp = true) ∧ pool = p ∧ ∀ j, locked j = false
  | .trying i => i = 0 ∧ g = false ∧ pool = p ∧ ∀ j, locked j = false
  | .holding i => i = 0 ∧ g = false ∧ pool = p ∧ ∀ j, j ≠ 0 → locked j = false
  | .running i input =>
    i = 0 ∧ g = false ∧ p.beginAt engine 0 request false = (.ok input, pool) ∧
      ∀ j, j ≠ 0 → locked j = false
  | .leaving i result =>
    i = 0 ∧ g = false ∧ p.analyze engine request false false = (result, pool) ∧
      ∀ j, j ≠ 0 → locked j = false
  | .served result =>
    g = false ∧ p.analyze engine request false false = (result, pool) ∧ ∀ j, locked j = false
  | .done result =>
    (∃ before after, (g = true → before = true) ∧
      (before = true ∨ after = true → gaveUp = true) ∧
      p.analyze engine request before after = (result, pool)) ∧ ∀ j, locked j = false
  | .turning | .arriving _ | .waiting _ => False

variable {pool : Pool σ} {locked : Nat → Bool} {gaveUp : Bool} {stage next : Stage}

/-- A caller that gives up is noticed only where that is looked at. -/
theorem LoneAt.giveUp (h : LoneAt engine request p g pool locked gaveUp stage) :
    LoneAt engine request p g pool locked true stage := by
  cases stage with
  | asking i => exact ⟨h.1, fun _ => rfl, h.2.2⟩
  | done result =>
    obtain ⟨⟨before, after, hbefore, -, hanalyze⟩, hfree⟩ := h
    exact ⟨⟨before, after, hbefore, fun _ => rfl, hanalyze⟩, hfree⟩
  | trying | holding | running | leaving | served | turning | arriving | waiting => exact h

/-- A request that is alone finds no handle held. -/
theorem LoneAt.move {size : Nat} (hmoves : Stage.Moves size locked gaveUp stage next)
    (h : LoneAt engine request p g pool locked gaveUp stage) :
    LoneAt engine request p g pool locked gaveUp next := by
  cases hmoves with
  | ask hgoes =>
    obtain ⟨hi, hbefore, hpool, hfree⟩ := h
    refine ⟨hi, ?_, hpool, hfree⟩
    rw [hgoes] at hbefore
    simpa using hbefore
  | stop hstops =>
    obtain ⟨-, -, rfl, hfree⟩ := h
    exact ⟨⟨true, false, fun _ => rfl, fun _ => hstops, Pool.analyze_cancelled false⟩, hfree⟩
  | pass hheld =>
    obtain ⟨-, -, -, hfree⟩ := h
    rw [hfree] at hheld
    cases hheld
  | passLast hheld =>
    obtain ⟨-, -, -, hfree⟩ := h
    rw [hfree] at hheld
    cases hheld
  | wait => exact h.elim
  | stopLate => exact h.elim
  | report =>
    obtain ⟨hg, hanalyze, hfree⟩ := h
    refine ⟨⟨false, gaveUp, by simp [hg], by simp, ?_⟩, hfree⟩
    rw [Pool.analyze_after, hanalyze]

/-- What a lone request has come to. -/
def IsLone (engine : Engine σ) (request : Request) (p : Pool σ) (g : Bool) (s : Lone σ) : Prop :=
  LoneAt engine request p g s.pool s.locked (s.gaveUp ()) (s.stages ())

/-- A lone request that goes on to another stage. -/
theorem isLone_setStage {s : Lone σ} {c : Unit}
    (h : LoneAt engine request p g s.pool s.locked (s.gaveUp ()) next) :
    (s.setStage c next).IsLone engine request p g := by
  have hself : (s.setStage c next).stages () = next := s.stages_setStage_self c next
  rw [IsLone, hself]
  exact h

/-- Every step of a request that is alone keeps what is known of it. -/
theorem Step.isLone {s s' : Lone σ} (hstep : Step engine (fun _ => request) s s')
    (h : s.IsLone engine request p g) : s'.IsLone engine request p g := by
  cases hstep with
  | giveUp c =>
    have hself : Function.update s.gaveUp c true () = true := Function.update_self ..
    rw [IsLone]
    dsimp only
    rw [hself]
    exact h.giveUp
  | move c hmoves => exact isLone_setStage (h.move hmoves)
  | turn c hstage =>
    rw [IsLone, hstage] at h
    exact h.elim
  | @take c i hstage hfree =>
    rcases hstage with hstage | hstage
    · rw [IsLone, hstage] at h
      obtain ⟨rfl, hg, hpool, hothers⟩ := h
      refine isLone_setStage ⟨rfl, hg, hpool, fun j hj => ?_⟩
      exact (s.locked_setLock_of_ne hj true).trans (hothers j)
    · rw [IsLone, hstage] at h
      exact h.elim
  | refuse c hstage hclosed hbegin =>
    rw [IsLone, hstage] at h
    obtain ⟨rfl, hg, rfl, hothers⟩ := h
    exact isLone_setStage ⟨rfl, hg, Pool.analyze_of_begin_error hbegin, hothers⟩
  | fail c hstage hopen hbegin =>
    rw [IsLone, hstage] at h
    obtain ⟨rfl, hg, rfl, hothers⟩ := h
    exact isLone_setStage ⟨rfl, hg, Pool.analyze_of_begin_error hbegin, hothers⟩
  | begin c hstage hbegin =>
    rw [IsLone, hstage] at h
    obtain ⟨rfl, hg, rfl, hothers⟩ := h
    exact isLone_setStage ⟨rfl, hg, Prod.ext hbegin rfl, hothers⟩
  | complete c hstage hcomplete =>
    rw [IsLone, hstage] at h
    obtain ⟨rfl, hg, hbegin, hothers⟩ := h
    refine isLone_setStage ⟨rfl, hg, ?_, hothers⟩
    rw [Pool.analyze_of_begin_ok (congrArg Prod.fst hbegin), hbegin]
    exact Prod.ext hcomplete rfl
  | leave c hstage =>
    rw [IsLone, hstage] at h
    obtain ⟨rfl, hg, hanalyze, hothers⟩ := h
    refine isLone_setStage ⟨hg, hanalyze, fun j => ?_⟩
    by_cases hj : j = 0
    · subst hj
      exact s.locked_setLock_self 0 false
    · exact (s.locked_setLock_of_ne hj false).trans (hothers j hj)
  | closeTake k => exact k.elim
  | close k => exact k.elim
  | closeLeave k => exact k.elim
  | closeDone k => exact k.elim

/-- What is known of a request from the beginning on. -/
theorem isLone_of_reachable {s : Lone σ}
    (hreach : Reachable engine (fun _ => request) (opened p fun _ => g) s) :
    s.IsLone engine request p g := by
  have hstart : (opened p fun _ => g : Lone σ).IsLone engine request p g :=
    ⟨rfl, id, rfl, fun _ => rfl⟩
  exact hreach.invariant (IsLone engine request p g) hstart fun _ _ h hstep => hstep.isLone h

/-! ### That it returns -/

/-- A request that holds the first handle can go through with it. -/
theorem exists_leaving {s : Lone σ} (hstage : s.stages () = .holding 0) :
    ∃ s' result, Reachable engine (fun _ => request) s s' ∧
      s'.stages () = .leaving 0 result ∧ s'.gaveUp = s.gaveUp := by
  cases hbegin : (s.pool.beginAt engine 0 request false).1 with
  | error e =>
    cases hseat : s.pool.seat 0 with
    | none =>
      exact ⟨_, .error e, .single (.refuse () hstage hseat hbegin), stages_setStage_self .., rfl⟩
    | some sandbox =>
      have hopen := Option.isSome_of_eq_some hseat
      exact ⟨_, .error e, .single (.fail () hstage hopen hbegin), stages_setStage_self .., rfl⟩
  | ok input =>
    have hbegun : Reachable engine (fun _ => request) s _ := .single (.begin () hstage hbegin)
    have hended := hbegun.tail (.complete () (stages_setStage_self ..) rfl)
    exact ⟨_, _, hended, stages_setStage_self .., rfl⟩

/-- A request whose caller has not given up can be served. -/
theorem exists_served (engine : Engine σ) (request : Request) (p : Pool σ) :
    ∃ (s : Lone σ) (result : Except Error Bytes),
      Reachable engine (fun _ => request) (opened p fun _ => false) s ∧
      s.stages () = .served result ∧ s.gaveUp () = false := by
  have hasked : Reachable engine (fun _ => request) (opened p fun _ => false : Lone σ) _ :=
    .single (.move () (.ask rfl))
  have hheld := hasked.tail (.take () (.inl (stages_setStage_self ..)) rfl)
  obtain ⟨s, result, hleaving, hstage, hgoes⟩ := exists_leaving (stages_setStage_self ..)
  refine ⟨_, result, (hheld.trans hleaving).tail (.leave () hstage), stages_setStage_self .., ?_⟩
  exact congrFun hgoes ()

/-- A request that is alone on the pool `p` can return this result and leave the pool like this,
where `g` says whether its caller had given up before, and `e` whether it has in the end. -/
def LoneReturns (engine : Engine σ) (request : Request) (p : Pool σ) (g e : Bool)
    (result : Except Error Bytes) (pool : Pool σ) : Prop :=
  ∃ s : Lone σ, Reachable engine (fun _ => request) (opened p fun _ => g) s ∧
    s.stages () = .done result ∧ s.pool = pool ∧ s.gaveUp () = e

/-- The caller of a request may give up at any time, or not. -/
theorem exists_gaveUp (engine : Engine σ) (request : Request) (s : Lone σ) {e : Bool}
    (he : s.gaveUp () = true → e = true) :
    ∃ t : Lone σ, Reachable engine (fun _ => request) s t ∧ t.stages = s.stages ∧
      t.pool = s.pool ∧ t.gaveUp () = e := by
  by_cases hgoes : s.gaveUp () = e
  · exact ⟨s, .refl, rfl, rfl, hgoes⟩
  · have hgives : e = true := by
      cases e with
      | true => rfl
      | false => exact he (by simpa using hgoes)
    exact ⟨_, .single (.giveUp ()), rfl, rfl, by simp [hgives]⟩

/-- What a request that is alone on a pool returns, and how it leaves the pool, is what a call on
the pool returns, and how that leaves it, for a caller that gives up before or meanwhile if at
all. -/
theorem loneReturns_iff {e : Bool} {result : Except Error Bytes} :
    LoneReturns engine request p g e result pool ↔
      ∃ before after, (g = true → before = true) ∧ (before = true ∨ after = true → e = true) ∧
        p.analyze engine request before after = (result, pool) := by
  constructor
  · rintro ⟨s, hreach, hdone, rfl, rfl⟩
    have hlone := isLone_of_reachable hreach
    rw [IsLone, hdone] at hlone
    exact hlone.1
  · rintro ⟨before, after, hbefore, hgives, hanalyze⟩
    cases before with
    | true =>
      -- The caller gives up before the first lock is tried.
      rw [Pool.analyze_cancelled, Prod.mk.injEq] at hanalyze
      obtain ⟨rfl, rfl⟩ := hanalyze
      obtain ⟨s, hs, hstages, hpool, hgave⟩ :=
        exists_gaveUp engine request (opened p fun _ => g) fun _ => hgives (.inl rfl)
      have hstop : Stage.Moves s.pool.size s.locked (s.gaveUp ()) (s.stages ())
          (.done (.error .cancelled)) := by
        rw [hstages, hgave]
        exact .stop (hgives (.inl rfl))
      exact ⟨_, hs.tail (.move () hstop), stages_setStage_self .., hpool, hgave⟩
    | false =>
      obtain rfl : g = false := by simpa using hbefore
      obtain ⟨s, served, hserved, hstage, hgoes⟩ := exists_served engine request p
      have hlone := isLone_of_reachable hserved
      rw [IsLone, hstage] at hlone
      rw [Pool.analyze_after, hlone.2.1, Prod.mk.injEq] at hanalyze
      obtain ⟨rfl, rfl⟩ := hanalyze
      -- It gives up when the request has been served, or when it has returned.
      obtain ⟨t, ht, hstages, hpool, hgave⟩ := exists_gaveUp engine request s (e := after)
        (by simp [hgoes])
      have hreport : Stage.Moves t.pool.size t.locked (t.gaveUp ()) (t.stages ())
          (.done (Handle.report after served)) := by
        rw [hstages, hstage, hgave]
        exact .report
      have hreturns := (hserved.trans ht).tail (.move () hreport)
      obtain ⟨u, hu, hend, hsame, hlast⟩ := exists_gaveUp engine request
        (t.setStage () (.done (Handle.report after served))) (e := e)
        fun hafter => hgives (.inr (hgave.symm.trans hafter))
      refine ⟨u, hreturns.trans hu, ?_, hsame.trans hpool, hlast⟩
      rw [hend]
      exact stages_setStage_self ..

end Traffic

end EngineHost
