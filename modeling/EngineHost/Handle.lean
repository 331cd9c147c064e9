import EngineHost.Blueprint
import EngineHost.Request
import EngineHost.Sandbox

/-!
# Handles

A handle owns one sandbox and admits one call at a time. A closed handle refuses every call. A
caller may give up: that is looked at before a call starts and after it has succeeded, while a call
that is under way is never broken off.
-/

namespace EngineHost

/-- `EngineHandle`: a handle on a sandbox. The sandbox sits in a `Guard`, which is empty once it is
closed. -/
structure Handle (σ : Type) where
  /-- The sandbox, until the handle is closed. -/
  sandbox : Option (Sandbox σ)
  /-- What has been noted on this handle. -/
  journal : Journal := {}

/-- The contract that a payload describes, as the methods named `contract_info` decode it. -/
def decodePayload (payload : Bytes) : Except Error Contract :=
  match Contract.decode payload with
  | .error fault => .error (.decode fault)
  | .ok contract => .ok contract

namespace Handle

variable {σ : Type}

/-- `CompiledEngine.instantiate`: opens a handle. -/
def ofBlueprint (b : Blueprint σ) : Except LoadFault (Handle σ) :=
  b.instantiate.map fun sandbox => ⟨some sandbox, {}⟩

/-- The first half of `contract_info_raw`, up to the point where the engine has given an input
buffer. A caller that has given up, and a closed handle, leave no trace; a call that ends here is
counted as failed. -/
def begin (engine : Engine σ) (h : Handle σ) (request : Request) (cancelled : Bool) :
    Except Error UInt32 × Handle σ :=
  if cancelled then (.error .cancelled, h)
  else
    match h.sandbox with
    | none => (.error .closed, h)
    | some sandbox =>
      match Sandbox.begin engine request.code sandbox h.journal with
      | (.error e, after, noted) =>
        (.error e, ⟨some after, noted.count (·.recordCall true)⟩)
      | (.ok input, after, noted) => (.ok input, ⟨some after, noted⟩)

/-- The second half of `contract_info_raw`, with `run` and `finish`: ends a call that has been given
an input buffer. Its own error is reported even to a caller that has given up. -/
def complete (engine : Engine σ) (h : Handle σ) (request : Request) (input : UInt32)
    (cancelled : Bool) : Except Error Bytes × Handle σ :=
  match h.sandbox with
  | none => (.error .closed, h)
  | some sandbox =>
    match Sandbox.complete engine input request.code request.options.mask sandbox h.journal with
    | (.error e, after, noted) => (.error e, ⟨some after, noted.count (·.recordCall true)⟩)
    | (.ok bytes, after, noted) =>
      (if cancelled then .error .cancelled else .ok bytes,
        ⟨some after, noted.count (·.recordCall false)⟩)

/-- `EngineHandle.contract_info_raw`: a call, for a caller that may have given up before it, or by
its end. -/
def analyze (engine : Engine σ) (h : Handle σ) (request : Request) (before after : Bool) :
    Except Error Bytes × Handle σ :=
  match h.begin engine request before with
  | (.error e, ended) => (.error e, ended)
  | (.ok input, started) => started.complete engine request input after

/-- `EngineHandle.is_closed`: whether the handle is closed. -/
def isClosed (h : Handle σ) : Bool := h.sandbox.isNone

/-- `EngineHandle.close`: closes the handle, which can be done once. -/
def close (h : Handle σ) : Except Error Unit × Handle σ :=
  if h.isClosed then (.error .closed, h) else (.ok (), { h with sandbox := none })

/-- The debug form of `EngineHandle`: a short description of a handle on an engine whose module has
this digest. -/
def description (digest : String) (h : Handle σ) : String :=
  "EngineHandle \x7b digest: " ++ Text.quote digest ++ ", closed: " ++
    (if h.isClosed then "true" else "false") ++ " \x7d"

end Handle

/-- The free function `contract_info`: opens a handle for one analysis, and closes it again. -/
def analyzeOnce {σ : Type} (b : Blueprint σ) (request : Request) : Except Error Contract :=
  match Handle.ofBlueprint b with
  | .error fault => .error (.load fault)
  | .ok h =>
    let (result, used) := h.analyze b.engine request false false
    match used.close.1 with
    | .error e => .error e
    | .ok () => result.bind decodePayload

end EngineHost
