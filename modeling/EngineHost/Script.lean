import EngineHost.Blueprint

/-!
# Scripted engines

An engine that is described by what it does: how it gives and takes back buffers, and which steps
it takes on which input. It can keep a log of its calls in its own memory.
-/

namespace EngineHost.Script

/-- A scripted engine's own state. -/
structure State where
  /-- How often it has been asked to analyze. -/
  calls : UInt32 := 0
  /-- How often it has been asked for a buffer. -/
  allocs : Nat := 0
  /-- Where the next buffer starts. -/
  heap : UInt32
  deriving DecidableEq, Repr

/-- How buffers are given. -/
inductive AllocPlan where
  /-- One after the other from `base` on, and from `base` again when `limit` would be passed.
  Sizes above the first bound trap, and sizes above the second are refused. -/
  | bump (base limit : UInt32) (trapAbove refuseAbove : Option UInt32)
  /-- By a list, of which the last entry is repeated; an absent address traps. -/
  | sequence (addresses : List (Option UInt32))
  deriving DecidableEq, Repr

/-- How buffers are taken back. -/
inductive DeallocPlan where
  | always
  | never
  /-- Unless they have one of these sizes. -/
  | unlessSize (sizes : List UInt32)
  deriving DecidableEq, Repr

/-- What an analysis does. -/
inductive Step where
  /-- Stores a word. -/
  | storeWord (address word : UInt32)
  /-- Stores bytes. -/
  | storeBytes (address : UInt32) (bytes : Bytes)
  /-- Stores a result with its length in front, and returns it. -/
  | respond (address : UInt32) (bytes : Bytes)
  /-- Copies bytes of the input, from an index on. -/
  | copyInput (address index count : UInt32)
  /-- Stores a byte of the input in two hexadecimal digits. -/
  | hexInput (address index : UInt32)
  /-- Stores the mask of options in eight hexadecimal digits. -/
  | hexMask (address : UInt32)
  /-- Stores the length of the input in eight hexadecimal digits. -/
  | hexLength (address : UInt32)
  /-- Stores the number of analyses so far in eight hexadecimal digits. -/
  | hexCalls (address : UInt32)
  /-- Grows memory, if it may. -/
  | grow (pages : UInt32)
  | trap
  | return_ (address : UInt32)
  deriving DecidableEq, Repr

/-- When steps are taken: every condition that is given has to hold. -/
structure Rule where
  /-- The first byte of the input. -/
  first : Option UInt8 := none
  /-- The length of the input. -/
  length : Option UInt32 := none
  /-- The mask of options. -/
  mask : Option UInt32 := none
  /-- The number of analyses so far. -/
  call : Option UInt32 := none
  /-- The steps. -/
  steps : List Step
  deriving DecidableEq, Repr

/-- The types of the parameters and of the results of a function. -/
structure Signature where
  parameters : List String
  results : List String
  deriving DecidableEq, Repr

end Script

/-- A scripted engine. -/
structure Script where
  /-- The pages of memory at the start. -/
  pages : Nat := 1
  /-- The greatest number of pages. -/
  maxPages : Option Nat := none
  /-- What memory holds at the start. -/
  data : List (UInt32 × Bytes) := []
  /-- The engine cannot be started. -/
  unstartable : Bool := false
  /-- What the engine does not offer. -/
  missing : List String := []
  /-- Functions that do nothing but trap, with their signatures. -/
  stubs : List (String × Script.Signature) := []
  /-- Where the log of calls is kept. -/
  log : Option UInt32 := none
  /-- How buffers are given. -/
  allocPlan : Script.AllocPlan := .bump 4096 65536 none none
  /-- How buffers are taken back. -/
  deallocPlan : Script.DeallocPlan := .always
  /-- What an analysis does, by the first rule that applies. -/
  rules : List Script.Rule := []
  /-- What an analysis does when no rule applies. -/
  otherwise : List Script.Step := []

namespace Script

/-- A sandbox of a scripted engine. -/
abbrev Box := Sandbox State

/-- What comes of a part of a call: a value, or a trap that leaves this sandbox. -/
abbrev Part (α : Type) := Except Box α

/-- Loads bytes from memory. -/
def load (address : UInt32) (count : Nat) (box : Box) : Part Bytes :=
  match box.memory.read? address.toNat count with
  | some bytes => .ok bytes
  | none => .error box

/-- Stores bytes in memory. -/
def store (address : UInt32) (bytes : Bytes) (box : Box) : Part Box :=
  match box.memory.write? address.toNat bytes with
  | some memory => .ok { box with memory := memory }
  | none => .error box

/-- The eight hexadecimal digits of a word. -/
def hexWord (w : UInt32) : Bytes := Hex.encodeBytes (Bytes.ofWord w).reverse

/-- Appends a call to the log: the log is preceded by its length. -/
def note (script : Script) (tag x y z : UInt32) (box : Box) : Part Box :=
  match script.log with
  | none => .ok box
  | some address => do
    let length := Bytes.toWord (← load address 4 box)
    let entry := [tag, x, y, z].flatMap Bytes.ofWord
    let box ← store (address + 4 + length) entry box
    store address (Bytes.ofWord (length + 16)) box

/-- Gives a buffer. -/
def give (plan : AllocPlan) (size : UInt32) (box : Box) : Part (UInt32 × Box) :=
  match plan with
  | .bump base limit trapAbove refuseAbove =>
    if trapAbove.any (· < size) then .error box
    else if refuseAbove.any (· < size) then .ok (0, box)
    else
      let heap := box.state.heap
      let address := if limit < heap + size then base else heap
      .ok (address, { box with state := { box.state with heap := address + size } })
  | .sequence addresses =>
    let index := min box.state.allocs (addresses.length - 1)
    let box := { box with state := { box.state with allocs := box.state.allocs + 1 } }
    match addresses[index]? with
    | some (some address) => .ok (address, box)
    | _ => .error box

/-- Takes a buffer back. -/
def takeBack (plan : DeallocPlan) (size : UInt32) (box : Box) : Part Box :=
  match plan with
  | .always => .ok box
  | .never => .error box
  | .unlessSize sizes => if sizes.contains size then .error box else .ok box

/-- The input of an analysis. -/
structure Input where
  /-- The address of the code. -/
  address : UInt32
  /-- The length of the code. -/
  length : UInt32
  /-- The mask of options. -/
  mask : UInt32

/-- Whether a condition that is given holds. -/
def meets {α : Type} [DecidableEq α] (condition : Option α) (actual : α) : Bool :=
  condition.all (· = actual)

/-- Whether a rule applies. -/
def Rule.applies (rule : Rule) (input : Input) (box : Box) : Part Bool :=
  if meets rule.length input.length && meets rule.mask input.mask &&
      meets rule.call box.state.calls then
    match rule.first with
    | none => .ok true
    | some b => (load input.address 1 box).map (· = [b])
  else .ok false

/-- The steps that an analysis takes. -/
def choose (otherwise : List Step) (input : Input) (box : Box) : List Rule → Part (List Step)
  | [] => .ok otherwise
  | rule :: rules =>
    match rule.applies input box with
    | .error trapped => .error trapped
    | .ok true => .ok rule.steps
    | .ok false => choose otherwise input box rules

/-- Takes one step: it may end the analysis with an address. -/
def Step.take (maxPages : Nat) (input : Input) (box : Box) : Step → Part (Option UInt32 × Box)
  | .storeWord address word => (store address (Bytes.ofWord word) box).map (none, ·)
  | .storeBytes address bytes => (store address bytes box).map (none, ·)
  | .respond address bytes =>
    (store address (Bytes.ofWord bytes.length.toUInt32 ++ bytes) box).map (some address, ·)
  | .copyInput address index count => do
    let bytes ← load (input.address + index) count.toNat box
    (store address bytes box).map (none, ·)
  | .hexInput address index => do
    let bytes ← if input.length ≤ index then .ok [0] else load (input.address + index) 1 box
    (store address (Hex.encodeBytes bytes) box).map (none, ·)
  | .hexMask address => (store address (hexWord input.mask) box).map (none, ·)
  | .hexLength address => (store address (hexWord input.length) box).map (none, ·)
  | .hexCalls address => (store address (hexWord box.state.calls) box).map (none, ·)
  | .grow pages =>
    match box.memory.grow? pages.toNat maxPages with
    | some memory => .ok (none, { box with memory := memory })
    | none => .ok (none, box)
  | .trap => .error box
  | .return_ address => .ok (some address, box)

/-- Takes steps until one ends the analysis; without one it ends with no result. -/
def takeAll (maxPages : Nat) (input : Input) : List Step → Box → Part (UInt32 × Box)
  | [], box => .ok (0, box)
  | step :: steps, box =>
    match step.take maxPages input box with
    | .error trapped => .error trapped
    | .ok (some address, after) => .ok (address, after)
    | .ok (none, after) => takeAll maxPages input steps after

/-- What a call comes to. -/
def outcome {α : Type} : Part (α × Box) → Outcome α × Box
  | .ok (value, box) => (.returned value, box)
  | .error box => (.trapped, box)

/-- Whether a function does nothing but trap. -/
def isStub (script : Script) (name : String) : Bool := script.stubs.any (·.1 = name)

/-- The entry points of a scripted engine. -/
def engine (script : Script) : Engine State where
  alloc := fun size box => outcome do
    if script.isStub Blueprint.allocName then throw box
    let box ← script.note 1 size 0 0 box
    give script.allocPlan size box
  dealloc := fun address size box => outcome do
    if script.isStub Blueprint.deallocName then throw box
    let box ← script.note 2 address size 0 box
    (takeBack script.deallocPlan size box).map ((), ·)
  analyze := fun address length mask box => outcome do
    if script.isStub Blueprint.analyzeName then throw box
    let box ← script.note 3 address length mask box
    let box := { box with state := { box.state with calls := box.state.calls + 1 } }
    let input := ⟨address, length, mask⟩
    let steps ← choose script.otherwise input box script.rules
    takeAll (script.maxPages.getD LinearMemory.maxPages) input steps box

/-- The memory of a fresh start, if what it should hold fits. -/
def firstMemory? (script : Script) : Option LinearMemory :=
  script.data.foldlM (fun memory (address, bytes) => memory.write? address.toNat bytes)
    (.zeros script.pages)

/-- Where the first buffer starts. -/
def firstHeap (script : Script) : UInt32 :=
  match script.allocPlan with
  | .bump base .. => base
  | .sequence _ => 0

/-- What the engine offers under a name. -/
def exported (script : Script) (name : String) (signature : Signature) : Export :=
  if script.missing.contains name then .missing
  else
    match script.stubs.lookup name with
    | some other => if other = signature then .matching else .mismatched
    | none => .matching

/-- The blueprint of a scripted engine. -/
def blueprint (script : Script) : Blueprint State where
  start :=
    if script.unstartable then none
    else script.firstMemory?.map fun memory => ⟨memory, { heap := script.firstHeap }⟩
  memory := !script.missing.contains Blueprint.memoryName
  alloc := script.exported Blueprint.allocName ⟨["i32"], ["i32"]⟩
  dealloc := script.exported Blueprint.deallocName ⟨["i32", "i32"], []⟩
  analyze := script.exported Blueprint.analyzeName ⟨["i32", "i32", "i32"], ["i32"]⟩
  engine := script.engine

/-- The compiler that makes a scripted engine of one module, and knows the module without parts. -/
def compiler (script : Script) (image : Bytes) : Compiler State := fun bytes =>
  if bytes = image then some script.blueprint else Compiler.bare { heap := 0 } bytes

end Script

end EngineHost
