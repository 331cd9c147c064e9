import EngineHost.Handle

/-!
# Pools

A pool has a fixed number of handles on sandboxes of one engine, with one journal for all. A call
takes the first handle that nobody holds. If all are held it waits for one, and callers that wait
take the handles in turn.
-/

namespace EngineHost

/-- `HandlePool`: a pool of handles. -/
structure Pool (σ : Type) where
  /-- The sandbox of each handle, until it is closed. -/
  seats : List (Option (Sandbox σ))
  /-- There is at least one handle. -/
  seats_ne_nil : seats ≠ []
  /-- How many calls have had to wait, modulo `2 ^ 64`. -/
  turns : UInt64 := 0
  /-- What has been noted on any of the handles. -/
  journal : Journal := {}

namespace Pool

variable {σ : Type}

/-- Opens a sandbox for each of `count` handles. -/
def openSeats (b : Blueprint σ) : Nat → Except LoadFault (List (Option (Sandbox σ)))
  | 0 => .ok []
  | count + 1 =>
    match b.instantiate with
    | .error fault => .error fault
    | .ok sandbox => (openSeats b count).map (some sandbox :: ·)

/-- `HandlePool.from_compiled`: opens a pool of `size` handles, and of one if `size` is zero. -/
def ofBlueprint (b : Blueprint σ) (size : Nat) : Except LoadFault (Pool σ) :=
  match b.instantiate with
  | .error fault => .error fault
  | .ok sandbox =>
    (openSeats b (size - 1)).map fun others =>
      { seats := some sandbox :: others, seats_ne_nil := by simp }

/-- `HandlePool.size`: the number of handles. -/
def size (p : Pool σ) : Nat := p.seats.length

/-- Does something on one of the handles. -/
def onSeat {α : Type} (p : Pool σ) (index : Nat) (act : Handle σ → α × Handle σ) : α × Pool σ :=
  let (answer, after) := act ⟨p.seats.getD index none, p.journal⟩
  (answer, { p with
    seats := p.seats.set index after.sandbox
    seats_ne_nil := by
      intro hnil
      exact p.seats_ne_nil (List.length_eq_zero_iff.mp (by simpa using congrArg List.length hnil))
    journal := after.journal })

/-- The first handle that is not held. This is the one on which `try_contract_info_raw` does not
find the guard locked. -/
def firstFree? (p : Pool σ) (held : List Nat) : Option Nat :=
  (List.range p.size).find? fun index => !held.contains index

/-- The counter `next` of the pool: the handle for which the next caller that has to wait will wait.
-/
def takeTurn (p : Pool σ) : Nat × Pool σ :=
  (p.turns.toNat % p.size, { p with turns := p.turns + 1 })

/-- The choice in `HandlePool.contract_info_raw` while the handles in `held` are held: the first one
that is free, or else the one whose turn it is. -/
def choose (p : Pool σ) (held : List Nat) : Nat × Pool σ :=
  match p.firstFree? held with
  | some index => (index, p)
  | none => p.takeTurn

/-- Of a pool of which no handle is held, the first one is chosen. -/
theorem choose_nil (p : Pool σ) : p.choose [] = (0, p) := by
  obtain ⟨count, hcount⟩ := Nat.exists_eq_add_one_of_ne_zero
    (fun hzero => p.seats_ne_nil (List.length_eq_zero_iff.mp hzero))
  have hfirst : p.firstFree? [] = some 0 := by
    rw [firstFree?, size, hcount, List.range_succ_eq_map]
    rfl
  rw [choose, hfirst]

/-- Starts a call on one of the handles. -/
def beginAt (engine : Engine σ) (p : Pool σ) (index : Nat) (request : Request) (cancelled : Bool) :
    Except Error UInt32 × Pool σ :=
  p.onSeat index fun h => h.begin engine request cancelled

/-- Ends a call on one of the handles. -/
def completeAt (engine : Engine σ) (p : Pool σ) (index : Nat) (request : Request) (input : UInt32)
    (cancelled : Bool) : Except Error Bytes × Pool σ :=
  p.onSeat index fun h => h.complete engine request input cancelled

/-- `HandlePool.contract_info_raw`: a call while no handle is held. -/
def analyze (engine : Engine σ) (p : Pool σ) (request : Request) (before after : Bool) :
    Except Error Bytes × Pool σ :=
  let (index, p) := p.choose []
  p.onSeat index fun h => h.analyze engine request before after

/-- A call while no handle is held is one on the first. -/
theorem analyze_eq (engine : Engine σ) (p : Pool σ) (request : Request) (before after : Bool) :
    p.analyze engine request before after =
      p.onSeat 0 fun h => h.analyze engine request before after := by
  rw [analyze, choose_nil]

/-- The loop of `HandlePool.close`: closes the handles from `index` on, given the first error so
far. Every handle that is closed already is warned about. -/
def closeFrom (index : Nat) (error? : Option Error) :
    List (Option (Sandbox σ)) → Journal → Option Error × Journal
  | [], journal => (error?, journal)
  | some _ :: rest, journal => closeFrom (index + 1) error? rest journal
  | none :: rest, journal =>
    closeFrom (index + 1) (error?.or (some .closed)) rest
      (journal.warn (.closeFailed index .closed))

/-- `HandlePool.close`: closes all handles. -/
def close (p : Pool σ) : Except Error Unit × Pool σ :=
  let (error?, journal) := closeFrom 0 none p.seats p.journal
  (match error? with
    | some e => .error e
    | none => .ok (),
    { p with
      seats := p.seats.map fun _ => none
      seats_ne_nil := by simpa using p.seats_ne_nil
      journal := journal })

/-- The debug form of `HandlePool`: a short description of a pool. -/
def description (p : Pool σ) : String := "HandlePool \x7b size: " ++ Decimal.text p.size ++ " \x7d"

end Pool

end EngineHost
