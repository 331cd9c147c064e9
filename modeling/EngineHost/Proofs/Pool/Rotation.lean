import EngineHost.Analyzer
import EngineHost.Proofs.Environment
import EngineHost.Proofs.Pool.Safety

/-!
# Size and rotation of a pool

The number of handles is what the environment sets, if it sets a number of 64 bits, and otherwise
that of the processors; a zero in the environment is raised to one. So a pool that is opened from
such a configuration has just the number of handles that the configuration says. Calls that have to
wait take the handles in turn: the count of such calls, which starts again from zero after `2 ^ 64`
of them, always names one of the handles.
-/

namespace EngineHost

namespace Environment

variable {α : Type} {read : String → Option α} {value : Option Bytes} {a : α}

/-- A variable has a value just in case it is a text from which, less the blanks around it, the
value is read. -/
theorem parsed_eq_some_iff :
    parsed read value = some a ↔
      ∃ s t, value = some (Bytes.ofText s) ∧ Text.Trimmed s t ∧ read t = some a := by
  unfold parsed text?
  constructor
  · intro h
    obtain ⟨s, hs, hread⟩ := Option.bind_eq_some_iff.mp h
    obtain ⟨bs, hvalue, hbs⟩ := Option.bind_eq_some_iff.mp hs
    rw [Bytes.text?_eq_some_iff.mp hbs] at hvalue
    exact ⟨s, Text.trim s, hvalue, Text.trimmed_trim s, hread⟩
  · rintro ⟨s, t, rfl, htrimmed, hread⟩
    rw [Option.bind_some, Bytes.text?_ofText, Option.bind_some, htrimmed.trim_eq, hread]

end Environment

namespace Config

variable {env : Environment} {v : Nat}

/-- The environment sets the number of handles to `v`: the variable is a text that writes `v`, with
blanks around it or not, and `v` has 64 bits. -/
def SetsPoolSize (env : Environment) (v : Nat) : Prop :=
  ∃ value text, env.get? "EVMOLE_POOL_SIZE" = some (Bytes.ofText value) ∧
    Text.Trimmed value text ∧ Decimal.Writes text v ∧ v < 2 ^ 64

/-- The variable has a number of handles as its value just in case the environment sets it. -/
theorem parsed_poolSize_iff :
    Environment.parsed (Environment.natural? 0x10000000000000000) (env.get? poolSizeVariable) =
      some v ↔ SetsPoolSize env v := by
  simp only [Environment.parsed_eq_some_iff, Environment.natural?_eq_some_iff, SetsPoolSize]
  rfl

/-- Where the environment sets a number of handles, the configuration has that number itself, and
one in place of zero. -/
theorem poolSize_of_setsPoolSize (h : SetsPoolSize env v) :
    ∃ n, (ofEnvironment env).poolSize = .exactly n ∧ n.toNat = max 1 v := by
  have hsize : (ofEnvironment env).poolSize = atLeastOne v.toUInt64 := by
    simp only [ofEnvironment, parsed_poolSize_iff.mpr h]
  have hv : v.toUInt64.toNat = v := by
    obtain ⟨-, -, -, -, -, hlt⟩ := h
    exact Nat.mod_eq_of_lt hlt
  refine ⟨_, hsize, ?_⟩
  split
  case isTrue hzero =>
    rw [hzero] at hv
    subst hv
    rfl
  case isFalse hne =>
    have hpos : v.toUInt64.toNat ≠ 0 := fun hnat => hne (UInt64.toNat_inj.mp hnat)
    omega

/-- Without a number in the environment, there is one handle for each processor. -/
theorem poolSize_of_not_setsPoolSize (h : ∀ v, ¬SetsPoolSize env v) :
    (ofEnvironment env).poolSize = .processors := by
  have hnone : Environment.parsed (Environment.natural? 0x10000000000000000)
      (env.get? poolSizeVariable) = none := by
    rw [Option.eq_none_iff_forall_ne_some]
    intro v hv
    exact h v (parsed_poolSize_iff.mp hv)
  simp only [ofEnvironment, hnone]

end Config

namespace Pool

variable {σ : Type} (p : Pool σ)

/-- The pool after so many calls have had to wait. -/
def afterTurns (p : Pool σ) : Nat → Pool σ
  | 0 => p
  | count + 1 => (p.afterTurns count).takeTurn.2

/-- A pool has a handle. -/
theorem size_pos : 0 < p.size := List.length_pos_of_ne_nil p.seats_ne_nil

/-- The turn is that of one of the handles. -/
theorem takeTurn_fst_lt : p.takeTurn.1 < p.size := Nat.mod_lt _ p.size_pos

/-- Taking turns opens no handle and closes none. -/
theorem size_afterTurns (count : Nat) : (p.afterTurns count).size = p.size := by
  induction count with
  | zero => rfl
  | succ count ih => exact ih

/-- Turns are counted modulo `2 ^ 64`. -/
theorem turns_afterTurns (count : Nat) :
    (p.afterTurns count).turns.toNat = (p.turns.toNat + count) % 2 ^ 64 := by
  induction count with
  | zero =>
    have hlt := p.turns.toNat_lt
    exact (Nat.mod_eq_of_lt hlt).symm
  | succ count ih =>
    change ((p.afterTurns count).turns + 1).toNat = _
    rw [UInt64.toNat_add, ih, UInt64.toNat_one]
    omega

/-- The turns go round the handles, with a counter of 64 bits. -/
theorem takeTurn_afterTurns (count : Nat) :
    (p.afterTurns count).takeTurn.1 = (p.turns.toNat + count) % 2 ^ 64 % p.size := by
  rw [takeTurn, turns_afterTurns, size_afterTurns]

/-- A pool opens before the first turn. -/
theorem turns_of_ofBlueprint {b : Blueprint σ} {size : Nat} {p : Pool σ}
    (hpool : ofBlueprint b size = .ok p) : p.turns = 0 := by
  unfold ofBlueprint at hpool
  split at hpool
  case h_1 => cases hpool
  case h_2 fresh hfresh =>
    rw [openSeats_eq_ok hfresh] at hpool
    cases hpool
    rfl

/-- A pool opens just in case a sandbox does. -/
theorem exists_ofBlueprint_iff {b : Blueprint σ} {size : Nat} :
    (∃ p, ofBlueprint b size = .ok p) ↔ ∃ fresh, b.instantiate = .ok fresh := by
  constructor
  · rintro ⟨p, hpool⟩
    obtain ⟨fresh, hfresh, -⟩ := fresh_of_ofBlueprint hpool
    exact ⟨fresh, hfresh⟩
  · rintro ⟨fresh, hfresh⟩
    unfold ofBlueprint
    rw [hfresh, openSeats_eq_ok hfresh]
    exact ⟨_, rfl⟩

end Pool

/-- The pool of an analyzer is one with the number of handles that its configuration says. -/
theorem Analyzer.exists_blueprint_of_ofConfig {σ : Type} {compiler : Compiler σ} {files : Files}
    {env : Environment} {processors : Nat} {c : Config} {a : Analyzer σ}
    (h : ofConfig compiler files env processors c = .ok a) :
    ∃ b, a.engine = b.engine ∧
      Pool.ofBlueprint b (c.poolSize.count processors) = .ok a.pool := by
  unfold ofConfig at h
  split at h
  case h_1 => cases h
  case h_2 m hmodule =>
    unfold ofModule at h
    split at h
    case h_1 => cases h
    case h_2 b hb =>
      unfold ofBlueprint at h
      cases hpool : Pool.ofBlueprint b (c.poolSize.count processors) with
      | error fault =>
        rw [hpool] at h
        cases h
      | ok p =>
        rw [hpool] at h
        cases h
        exact ⟨b, rfl, hpool⟩

/-- Where the environment sets a number `v` of 64 bits, the configuration from it has `v` itself for
the number of handles, or one if `v` is zero; where it does not, the configuration has the default,
the number `d` of processors. A pool is opened with that number of handles, and keeps it whatever
goes on on it. After any number of calls that had to wait, also after `2 ^ 64` and more, the next
one waits for one of the handles. -/
theorem poolSize_rotation (env : Environment) (d : Nat) (hd : 1 ≤ d) :
    ({} : Config).poolSize = .processors ∧ ({} : Config).poolSize.count d = d ∧
    (∀ v, Config.SetsPoolSize env v →
      ∃ k, (Config.ofEnvironment env).poolSize = .exactly k ∧ k.toNat = max 1 v) ∧
    ((∀ v, ¬Config.SetsPoolSize env v) → (Config.ofEnvironment env).poolSize = .processors) ∧
    ∃ n, (Config.ofEnvironment env).poolSize.count d = n ∧ 1 ≤ n ∧
      (∀ v, Config.SetsPoolSize env v → n = max 1 v) ∧
      ((∀ v, ¬Config.SetsPoolSize env v) → n = d) ∧
      (∀ {σ : Type} (compiler : Compiler σ) (files : Files) (env' : Environment) (a : Analyzer σ),
        Analyzer.ofConfig compiler files env' d (Config.ofEnvironment env) = .ok a →
        ∃ b, a.engine = b.engine ∧ Pool.ofBlueprint b n = .ok a.pool) ∧
      ∀ {σ : Type} (b : Blueprint σ),
        ((∃ p, Pool.ofBlueprint b n = .ok p) ↔ ∃ fresh, b.instantiate = .ok fresh) ∧
        ∀ p, Pool.ofBlueprint b n = .ok p →
          p.size = n ∧
          (∀ k, (p.afterTurns k).size = n ∧ (p.afterTurns k).takeTurn.1 = k % 2 ^ 64 % n ∧
            (p.afterTurns k).takeTurn.1 < n) ∧
          ∀ {ι κ : Type} [DecidableEq ι] [DecidableEq κ] (requests : ι → Request)
            (gaveUp : ι → Bool) (s : Traffic σ ι κ),
            Traffic.Reachable b.engine requests (Traffic.opened p gaveUp) s →
            s.pool.size = n ∧ s.pool.takeTurn.1 = s.pool.turns.toNat % n ∧
              s.pool.takeTurn.1 < n := by
  have hdefault : PoolSize.processors.count d = d := Nat.max_eq_left hd
  have hset : ∀ v, Config.SetsPoolSize env v →
      (Config.ofEnvironment env).poolSize.count d = max 1 v := by
    intro v hv
    obtain ⟨k, hk, hcount⟩ := Config.poolSize_of_setsPoolSize hv
    rw [hk]
    exact hcount
  have hunset : (∀ v, ¬Config.SetsPoolSize env v) →
      (Config.ofEnvironment env).poolSize.count d = d := by
    intro hnone
    rw [Config.poolSize_of_not_setsPoolSize hnone, hdefault]
  have hpos : 1 ≤ (Config.ofEnvironment env).poolSize.count d := by
    by_cases hsets : ∃ v, Config.SetsPoolSize env v
    · obtain ⟨v, hv⟩ := hsets
      have hcount := hset v hv
      omega
    · have hcount := hunset (not_exists.mp hsets)
      omega
  refine ⟨rfl, hdefault, fun v => Config.poolSize_of_setsPoolSize,
    Config.poolSize_of_not_setsPoolSize, _, rfl, hpos, hset, hunset,
    fun compiler files env' a ha => Analyzer.exists_blueprint_of_ofConfig ha,
    fun b => ⟨Pool.exists_ofBlueprint_iff, fun p hpool => ?_⟩⟩
  · have hsize : p.size = (Config.ofEnvironment env).poolSize.count d := by
      obtain ⟨-, -, hmax, -⟩ := Pool.fresh_of_ofBlueprint hpool
      omega
    refine ⟨hsize, fun k => ⟨?_, ?_, ?_⟩, fun requests gaveUp s hreach => ?_⟩
    · rw [Pool.size_afterTurns, hsize]
    · rw [Pool.takeTurn_afterTurns, Pool.turns_of_ofBlueprint hpool, UInt64.toNat_zero,
        Nat.zero_add, hsize]
    · rw [← hsize, ← p.size_afterTurns k]
      exact Pool.takeTurn_fst_lt _
    · have hkept : s.pool.size = (Config.ofEnvironment env).poolSize.count d :=
        hreach.invariant (fun s => s.pool.size = (Config.ofEnvironment env).poolSize.count d) hsize
          fun _ _ hbefore hstep => hstep.size_eq.trans hbefore
      refine ⟨hkept, by rw [← hkept]; rfl, ?_⟩
      rw [← hkept]
      exact Pool.takeTurn_fst_lt _

/-- The environment in which the number of handles is three, with a sign and zeros in front. -/
def threeHandles : Environment := ⟨[("EVMOLE_POOL_SIZE", Bytes.ofText "\u2003+003\n")]⟩

/-- The turns among three handles start again with the first one after `2 ^ 64` turns, although
`2 ^ 64` is no multiple of three. -/
theorem poolSize_rotation_threeHandles :
    Config.SetsPoolSize threeHandles 3 ∧
      (Config.ofEnvironment threeHandles).poolSize = .exactly 3 ∧
      ∃ p, Pool.ofBlueprint Traffic.forgetful 3 = .ok p ∧ p.size = 3 ∧
        (p.afterTurns (2 ^ 64 + 1)).takeTurn.1 = 1 := by
  have hsets : Config.SetsPoolSize threeHandles 3 := by
    have hblank : Text.Blank "\u2003" ∧ Text.Blank "\n" := by
      simp [Text.Blank, Text.isBlank, Text.blankRanges]
    have hnot : ∀ c ∈ "+003".toList, Text.isBlank c = false := by
      simp [Text.isBlank, Text.blankRanges]
    have hdigits : List.Forall₂ Decimal.CharDigit "003".toList [0, 0, 3] :=
      .cons ⟨by decide, rfl⟩ (.cons ⟨by decide, rfl⟩ (.cons ⟨by decide, rfl⟩ .nil))
    exact ⟨_, "+003", rfl, Text.trimmed_of_not_blank hblank.1 hblank.2 hnot,
      ⟨"+", by decide, "003", [0, 0, 3], rfl, by decide, hdigits, rfl⟩, by decide⟩
  obtain ⟨-, -, hfield, -, n, -, -, hset, -, -, hpools⟩ :=
    poolSize_rotation threeHandles 8 (by decide)
  obtain ⟨k, hthree, hk⟩ := hfield 3 hsets
  obtain rfl : k = 3 := UInt64.toNat_inj.mp hk
  obtain rfl : n = 3 := hset 3 hsets
  obtain ⟨hopens, hturns⟩ := hpools Traffic.forgetful
  obtain ⟨p, hp⟩ := hopens.mpr ⟨_, rfl⟩
  obtain ⟨hsize, hrotation, -⟩ := hturns p hp
  exact ⟨hsets, hthree, p, hp, hsize, (hrotation (2 ^ 64 + 1)).2.1⟩

end EngineHost
