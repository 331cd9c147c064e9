import EngineHost.Analyzer
import EngineHost.Contract.Encode

/-!
# Sessions

A session is a sequence of operations on handles, on a pool or on an analyzer. Callers give up by
tokens, which requests can share.
-/

namespace EngineHost

/-- A call within a session. -/
structure Call where
  /-- The request, unless it could not be made. -/
  request : Except Error Request
  /-- The token by which its caller gives up. -/
  token : Option String := none
  /-- The caller gives up as soon as the engine has given an input buffer. -/
  cancelInFlight : Bool := false

/-- The tokens whose callers have given up. -/
structure Tokens where
  /-- Their names. -/
  cancelled : List String := []

namespace Tokens

/-- Whether the caller with this token has given up. -/
def isCancelled (tokens : Tokens) (name : String) : Bool := tokens.cancelled.contains name

/-- The caller with this token gives up. -/
def cancel (tokens : Tokens) (name : String) : Tokens := ⟨name :: tokens.cancelled⟩

/-- Whether the caller of a call has given up. -/
def stops (tokens : Tokens) (call : Call) : Bool := call.token.any tokens.isCancelled

/-- The tokens once the engine has given an input buffer for a call. -/
def afterBegin (tokens : Tokens) (call : Call) : Tokens :=
  match call.token, call.cancelInFlight with
  | some name, true => tokens.cancel name
  | _, _ => tokens

end Tokens

/-- The result of a call before decoding. -/
abbrev RawResult := Except Error Bytes

/-- An operation of a session. -/
inductive Operation where
  /-- Analyzes and decodes. -/
  | analyze (call : Call)
  /-- Analyzes. -/
  | analyzeRaw (call : Call)
  /-- Analyzes and decodes one after the other. -/
  | analyzeMany (calls : List Call)
  /-- Starts each call while the one before is under way, and ends them in reverse. -/
  | nest (calls : List Call)
  /-- A caller gives up. -/
  | cancel (token : String)
  /-- Asks whether a caller has given up. -/
  | token (token : String)
  | close
  /-- Asks whether a handle is closed. -/
  | isClosed
  /-- Sets the counters back. -/
  | reset
  /-- Opens one more handle. -/
  | instantiate
  /-- Asks for descriptions, in which the digest of the module is written like this. -/
  | describe (digest : String)

/-- What an operation answers. -/
inductive Answer where
  | contract (result : Except Error Contract)
  | raw (result : RawResult)
  | contracts (results : List (Except Error Contract))
  | raws (results : List RawResult)
  | cancelled (b : Bool)
  | done (result : Except Error Unit)
  | closed (b : Bool)
  | handles (count : Nat)
  /-- The descriptions of a blueprint and of a handle. -/
  | handleDescription (blueprint handle : String)
  /-- The description and the size of a pool. -/
  | poolDescription (pool : String) (size : Nat)
  /-- The description of an analyzer. -/
  | analyzerDescription (analyzer : String)

namespace Handle

variable {σ : Type}

/-- A call on a handle. -/
def run (engine : Engine σ) (h : Handle σ) (tokens : Tokens) (call : Call) :
    RawResult × Handle σ × Tokens :=
  match call.request with
  | .error e => (.error e, h, tokens)
  | .ok request =>
    match h.begin engine request (tokens.stops call) with
    | (.error e, ended) => (.error e, ended, tokens)
    | (.ok input, started) =>
      let tokens := tokens.afterBegin call
      let (result, ended) := started.complete engine request input (tokens.stops call)
      (result, ended, tokens)

end Handle

namespace Pool

variable {σ : Type}

/-- A call on a pool while no handle is held. -/
def run (engine : Engine σ) (p : Pool σ) (tokens : Tokens) (call : Call) :
    RawResult × Pool σ × Tokens :=
  let (index, p) := p.choose []
  let ((result, tokens), p) := p.onSeat index fun h =>
    let (result, h, tokens) := h.run engine tokens call
    ((result, tokens), h)
  (result, p, tokens)

/-- A call while no handle is held is one on the first. -/
theorem run_eq (engine : Engine σ) (p : Pool σ) (tokens : Tokens) (call : Call) :
    p.run engine tokens call =
      let called := p.onSeat 0 fun h =>
        (((h.run engine tokens call).1, (h.run engine tokens call).2.2),
          (h.run engine tokens call).2.1)
      (called.1.1, called.2, called.1.2) := by
  rw [run, choose_nil]

/-- Calls on a pool, one after the other. -/
def runAll (engine : Engine σ) (p : Pool σ) (tokens : Tokens) :
    List Call → List RawResult × Pool σ × Tokens
  | [] => ([], p, tokens)
  | call :: calls =>
    let (result, p, tokens) := p.run engine tokens call
    let (results, p, tokens) := runAll engine p tokens calls
    (result :: results, p, tokens)

/-- A call that found all handles held: what it waits for. -/
structure Waiting where
  /-- The handle that it waits for. -/
  index : Nat
  /-- The call. -/
  call : Call

/-- What is known of a nested call when all calls before it have been started. -/
abbrev Nested := RawResult ⊕ Waiting

/-- Nested calls while the handles in `held` are held. Each call is started while those before it
are under way, and is ended when those after it have ended. A call that has to wait is put off. -/
def nest (engine : Engine σ) (p : Pool σ) (tokens : Tokens) (held : List Nat) :
    List Call → List Nested × Pool σ × Tokens
  | [] => ([], p, tokens)
  | call :: calls =>
    match call.request with
    | .error e =>
      let (others, p, tokens) := nest engine p tokens held calls
      (.inl (.error e) :: others, p, tokens)
    | .ok request =>
      if tokens.stops call then
        let (others, p, tokens) := nest engine p tokens held calls
        (.inl (.error .cancelled) :: others, p, tokens)
      else
        match p.firstFree? held with
        | none =>
          let (index, p) := p.takeTurn
          let (others, p, tokens) := nest engine p tokens held calls
          (.inr ⟨index, call⟩ :: others, p, tokens)
        | some index =>
          match p.beginAt engine index request false with
          | (.error e, p) =>
            let (others, p, tokens) := nest engine p tokens held calls
            (.inl (.error e) :: others, p, tokens)
          | (.ok input, p) =>
            let tokens := tokens.afterBegin call
            let (others, p, tokens) := nest engine p tokens (index :: held) calls
            let (result, p) := p.completeAt engine index request input (tokens.stops call)
            (.inl result :: others, p, tokens)

/-- Makes the calls that were put off, now that no handle is held. -/
def settle (engine : Engine σ) (p : Pool σ) (tokens : Tokens) :
    List Nested → List RawResult × Pool σ × Tokens
  | [] => ([], p, tokens)
  | .inl result :: rest =>
    let (results, p, tokens) := settle engine p tokens rest
    (result :: results, p, tokens)
  | .inr waiting :: rest =>
    let ((result, tokens), p) := p.onSeat waiting.index fun h =>
      let (result, h, tokens) := h.run engine tokens waiting.call
      ((result, tokens), h)
    let (results, p, tokens) := settle engine p tokens rest
    (result :: results, p, tokens)

/-- Nested calls on a pool of which no handle is held. -/
def runNested (engine : Engine σ) (p : Pool σ) (tokens : Tokens) (calls : List Call) :
    List RawResult × Pool σ × Tokens :=
  let (nested, p, tokens) := p.nest engine tokens [] calls
  p.settle engine tokens nested

end Pool

/-- What a session works on. -/
inductive Target (σ : Type) where
  | handles (handles : List (Handle σ))
  | pool (pool : Pool σ)
  | analyzer (analyzer : Analyzer σ)

/-- A session. -/
structure Session (σ : Type) where
  /-- The engine's blueprint. -/
  blueprint : Blueprint σ
  /-- What the session works on. -/
  target : Target σ
  /-- The tokens of its callers. -/
  tokens : Tokens := {}

namespace Session

variable {σ : Type}

/-- A session on one new handle. -/
def ofHandle (b : Blueprint σ) : Except LoadFault (Session σ) :=
  (Handle.ofBlueprint b).map fun h => ⟨b, .handles [h], {}⟩

/-- A session on a new pool of `size` handles. -/
def ofPool (b : Blueprint σ) (size : Nat) : Except LoadFault (Session σ) :=
  (Pool.ofBlueprint b size).map fun pool => ⟨b, .pool pool, {}⟩

/-- A session on a new analyzer with `size` handles, whose module has this digest. -/
def ofAnalyzer (b : Blueprint σ) (digest : Bytes) (size : Nat) : Except LoadFault (Session σ) :=
  (Analyzer.ofBlueprint b digest size).map fun analyzer => ⟨b, .analyzer analyzer, {}⟩

/-- An operation on a handle. -/
def onHandle (engine : Engine σ) (h : Handle σ) (tokens : Tokens) (operation : Operation) :
    Option (Answer × Handle σ × Tokens) :=
  match operation with
  | .analyze call =>
    let (result, h, tokens) := h.run engine tokens call
    some (.contract (result.bind decodePayload), h, tokens)
  | .analyzeRaw call =>
    let (result, h, tokens) := h.run engine tokens call
    some (.raw result, h, tokens)
  | .close =>
    let (result, h) := h.close
    some (.done result, h, tokens)
  | .isClosed => some (.closed h.isClosed, h, tokens)
  | .reset => some (.done (.ok ()), { h with journal := h.journal.reset }, tokens)
  | .describe digest =>
    some (.handleDescription (Blueprint.description digest) (h.description digest), h, tokens)
  | _ => none

/-- An operation on a pool. -/
def onPool (engine : Engine σ) (p : Pool σ) (tokens : Tokens) (operation : Operation) :
    Option (Answer × Pool σ × Tokens) :=
  match operation with
  | .analyze call =>
    let (result, p, tokens) := p.run engine tokens call
    some (.contract (result.bind decodePayload), p, tokens)
  | .analyzeRaw call =>
    let (result, p, tokens) := p.run engine tokens call
    some (.raw result, p, tokens)
  | .analyzeMany calls =>
    let (results, p, tokens) := p.runAll engine tokens calls
    some (.contracts (results.map (·.bind decodePayload)), p, tokens)
  | .nest calls =>
    let (results, p, tokens) := p.runNested engine tokens calls
    some (.raws results, p, tokens)
  | .close =>
    let (result, p) := p.close
    some (.done result, p, tokens)
  | .reset => some (.done (.ok ()), { p with journal := p.journal.reset }, tokens)
  | .describe _ => some (.poolDescription p.description p.size, p, tokens)
  | _ => none

/-- The journal that an operation on this handle, or on all, is noted in. -/
def journal (s : Session σ) (handle : Nat) : Journal :=
  match s.target with
  | .handles handles => (handles[handle]?.map (·.journal)).getD {}
  | .pool pool => pool.journal
  | .analyzer analyzer => analyzer.pool.journal

/-- Forgets the warnings. -/
def forgetWarnings (s : Session σ) : Session σ :=
  let quiet := fun (j : Journal) => { j with warnings := [] }
  { s with
    target :=
      match s.target with
      | .handles handles => .handles (handles.map fun h => { h with journal := quiet h.journal })
      | .pool pool => .pool { pool with journal := quiet pool.journal }
      | .analyzer analyzer =>
        .analyzer { analyzer with
          pool := { analyzer.pool with journal := quiet analyzer.pool.journal } } }

/-- An operation, on the handle with this index if the session works on handles. What the target
does not offer has no answer. -/
def step (s : Session σ) (handle : Nat) (operation : Operation) : Option (Answer × Session σ) :=
  match operation, s.target with
  | .cancel token, _ => some (.cancelled true, { s with tokens := s.tokens.cancel token })
  | .token token, _ => some (.cancelled (s.tokens.isCancelled token), s)
  | .instantiate, .handles handles =>
    match Handle.ofBlueprint s.blueprint with
    | .error fault => some (.done (.error (.load fault)), s)
    | .ok h =>
      some (.handles (handles.length + 1), { s with target := .handles (handles ++ [h]) })
  | _, .handles handles =>
    match handles[handle]? with
    | none => none
    | some h =>
      (onHandle s.blueprint.engine h s.tokens operation).map fun (answer, h, tokens) =>
        (answer, { s with target := .handles (handles.set handle h), tokens := tokens })
  | _, .pool pool =>
    (onPool s.blueprint.engine pool s.tokens operation).map fun (answer, pool, tokens) =>
      (answer, { s with target := .pool pool, tokens := tokens })
  | .describe digest, .analyzer analyzer =>
    some (.analyzerDescription (analyzer.description digest), s)
  | _, .analyzer analyzer =>
    (onPool analyzer.engine analyzer.pool s.tokens operation).map fun (answer, pool, tokens) =>
      (answer, { s with target := .analyzer { analyzer with pool := pool }, tokens := tokens })

end Session

end EngineHost
