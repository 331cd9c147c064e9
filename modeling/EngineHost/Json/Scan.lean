import EngineHost.Json.Node

/-!
# Scanning a JSON text

The tree of a JSON text is built by a machine that takes one byte at a time. Its state is the
stack of containers that are still open, and what it is in the middle of. The whole scan is a fold
over the bytes, so the scan of a text is the scan of its tail from the state after its head.
-/

namespace EngineHost.Json

/-- A container that is open around the place that the machine has reached. Finished parts are
kept in reverse. -/
inductive Frame where
  /-- An array, with its finished items. -/
  | items (done : List Node)
  /-- An object, with its finished members and the key whose value is being read. -/
  | member (done : List (Quoted × Node)) (key : Quoted)

/-- Where a value is expected. -/
inductive Place where
  /-- At the top, or after a colon. -/
  | plain
  /-- After an opening bracket. -/
  | firstItem
  /-- After a comma in an array. -/
  | nextItem
  deriving DecidableEq, Repr

/-- What the machine is in the middle of. -/
inductive Mode where
  /-- A value should start here. -/
  | start (place : Place)
  /-- Inside the word of an atom, before these letters. -/
  | word (rest : Bytes) (atom : Atom)
  /-- Inside a number. -/
  | numeral (n : Numeral)
  /-- Inside a string that is a value. -/
  | quoted (q : QuotedProgress)
  /-- After a finished value. -/
  | after (value : Node)
  /-- Before a key of an object with these members; after its opening brace or after a comma. -/
  | key (done : List (Quoted × Node)) (first : Bool)
  /-- Inside a key. -/
  | quotedKey (done : List (Quoted × Node)) (q : QuotedProgress)
  /-- Between a key and its colon. -/
  | colon (done : List (Quoted × Node)) (key : Quoted)

/-- A state of the machine: at work, or halted with its result. -/
inductive Scan where
  | running (stack : List Frame) (mode : Mode)
  | halted (document : Document)

namespace Scan

/-- The state before the first byte. -/
def initial : Scan := .running [] (.start .plain)

/-- A blank of JSON: space, tab, line feed or carriage return. -/
def isBlank (b : UInt8) : Bool := b = 32 || b = 9 || b = 10 || b = 13

/-- The tree around a broken node: every open container ends with it. -/
def unwind : List Frame → Node → Node
  | [], node => node
  | .items done :: stack, node => unwind stack (.array (node :: done).reverse .unfinished)
  | .member done key :: stack, node =>
    unwind stack (.object ((key, node) :: done).reverse .unfinished)

/-- The machine stops at a broken node. -/
def halt (stack : List Frame) (node : Node) : Scan := .halted ⟨unwind stack node, false⟩

/-- A byte where a value should start. -/
def pushStart (stack : List Frame) (place : Place) (b : UInt8) : Scan :=
  if isBlank b then .running stack (.start place)
  else if b = 110 then .running stack (.word [117, 108, 108] .null)
  else if b = 116 then .running stack (.word [114, 117, 101] .yes)
  else if b = 102 then .running stack (.word [97, 108, 115, 101] .no)
  else if b = 45 then .running stack (.numeral { negative := true })
  else if b = 34 then .running stack (.quoted (.between []))
  else if b = 91 then .running (.items [] :: stack) (.start .firstItem)
  else if b = 123 then .running stack (.key [] true)
  else
    match Decimal.digit? b with
    | some d => .running stack (.numeral { whole := [d] })
    | none =>
      match place, b, stack with
      | .firstItem, 93, .items done :: outer =>
        .running outer (.after (.array done.reverse .closed))
      | .nextItem, 93, .items done :: outer => halt outer (.array done.reverse .commaClosed)
      | _, _, _ => halt stack (.broken .noValue)

/-- A byte after a finished value. -/
def pushAfter (stack : List Frame) (value : Node) (b : UInt8) : Scan :=
  if isBlank b then .running stack (.after value)
  else
    match stack with
    | [] => .halted ⟨value, true⟩
    | .items done :: outer =>
      if b = 44 then .running (.items (value :: done) :: outer) (.start .nextItem)
      else if b = 93 then .running outer (.after (.array (value :: done).reverse .closed))
      else halt outer (.array (value :: done).reverse .noSeparator)
    | .member done key :: outer =>
      if b = 44 then .running outer (.key ((key, value) :: done) false)
      else if b = 125 then
        .running outer (.after (.object ((key, value) :: done).reverse .closed))
      else halt outer (.object ((key, value) :: done).reverse .noSeparator)

/-- A byte where a key should start. -/
def pushKey (stack : List Frame) (done : List (Quoted × Node)) (first : Bool) (b : UInt8) : Scan :=
  if isBlank b then .running stack (.key done first)
  else if b = 34 then .running stack (.quotedKey done (.between []))
  else if b = 125 then
    if first then .running stack (.after (.object done.reverse .closed))
    else halt stack (.object done.reverse .commaClosed)
  else halt stack (.object done.reverse .noKey)

/-- A byte inside or after a number. -/
def pushNumeral (stack : List Frame) (n : Numeral) (b : UInt8) : Scan :=
  match n.push b with
  | some longer => .running stack (.numeral longer)
  | none =>
    if n.complete && !n.leadingZero b then pushAfter stack (.numeral n) b
    else halt stack (.broken .wrongNumeral)

/-- The state after one more byte. -/
def push : Scan → UInt8 → Scan
  | .halted document, _ => .halted document
  | .running stack mode, b =>
    match mode with
    | .start place => pushStart stack place b
    | .word [] atom => pushAfter stack atom.node b
    | .word (letter :: rest) atom =>
      if b = letter then
        .running stack (if rest = [] then .after atom.node else .word rest atom)
      else halt stack (.broken (.wrongWord atom))
    | .numeral n => pushNumeral stack n b
    | .quoted q =>
      match q.push b with
      | .inl more => .running stack (.quoted more)
      | .inr whole =>
        if whole.ending = .closed then .running stack (.after (.quoted whole))
        else halt stack (.quoted whole)
    | .after value => pushAfter stack value b
    | .key done first => pushKey stack done first b
    | .quotedKey done q =>
      match q.push b with
      | .inl more => .running stack (.quotedKey done more)
      | .inr whole =>
        if whole.ending = .closed then .running stack (.colon done whole)
        else halt (.member done whole :: stack) (.broken .noColon)
    | .colon done key =>
      if isBlank b then .running stack (.colon done key)
      else if b = 58 then .running (.member done key :: stack) (.start .plain)
      else halt (.member done key :: stack) (.broken .noColon)

/-- The tree of a text that ends after a finished value. -/
def endAfter (stack : List Frame) (value : Node) : Node :=
  match stack with
  | [] => value
  | .items done :: outer => unwind outer (.array (value :: done).reverse .unfinished)
  | .member done key :: outer => unwind outer (.object ((key, value) :: done).reverse .unfinished)

/-- The tree of a text that ends here. -/
def endRunning (stack : List Frame) : Mode → Node
  | .start place =>
    match place, stack with
    | .firstItem, .items done :: outer => unwind outer (.array done.reverse .unfinished)
    | _, _ => unwind stack (.broken .noText)
  | .word _ atom => unwind stack (.broken (.cutWord atom))
  | .numeral n =>
    if n.complete then endAfter stack (.numeral n) else unwind stack (.broken .cutNumeral)
  | .quoted q => unwind stack (.quoted q.cut)
  | .after value => endAfter stack value
  | .key done first =>
    unwind stack (.object done.reverse (if first then .unfinished else .commaUnfinished))
  | .quotedKey done q => unwind (.member done q.cut :: stack) (.broken .cutMember)
  | .colon done key => unwind (.member done key :: stack) (.broken .cutMember)

/-- The document of a text that ends here. -/
def finish : Scan → Document
  | .halted document => document
  | .running stack mode => ⟨endRunning stack mode, false⟩

/-- The state after a byte string. -/
def feed (state : Scan) (bs : Bytes) : Scan := bs.foldl push state

/-- Feeding two byte strings is feeding one after the other. -/
theorem feed_append (state : Scan) (as bs : Bytes) :
    state.feed (as ++ bs) = (state.feed as).feed bs := List.foldl_append

end Scan

/-- The document of a JSON text. -/
def Document.ofBytes (bs : Bytes) : Document := (Scan.initial.feed bs).finish

end EngineHost.Json
