import EngineHost.Bytes
import EngineHost.Options

/-!
# Command line arguments

The arguments are read from left to right. Flags take no value; the other options take one, joined
by an equals sign or as the next argument, which must not look like an option. Every option can be
given once. Asking for the version ends the reading at once.
-/

namespace EngineHost

/-- `Args`: what the arguments ask for. -/
structure Arguments where
  /-- The file of the engine module. -/
  modulePath : Option Bytes := none
  /-- The code, in hexadecimal. -/
  code : Option String := none
  /-- The file that holds the code, in hexadecimal. -/
  codePath : Option Bytes := none
  /-- The analyses that are asked for one by one. -/
  analyses : List Analysis := []
  /-- All analyses are asked for. -/
  all : Bool := false
  /-- The result is written with one item a line. -/
  pretty : Bool := false
  deriving DecidableEq, Repr

/-- Why the arguments are not acted upon. -/
inductive ArgumentsEnd where
  /-- They break the rules. -/
  | usage
  /-- They ask for the version. -/
  | version
  /-- They ask for help. -/
  | help
  deriving DecidableEq, Repr

/-- An option that takes a value. -/
inductive ValueOption where
  | modulePath
  | code
  | codePath
  deriving DecidableEq, Repr

/-- An option that takes no value. -/
inductive Flag where
  | analysis (a : Analysis)
  | all
  | pretty
  | version
  | help
  deriving DecidableEq, Repr

/-- The options that take a value, by their names. -/
def valueOptions : List (String × ValueOption) :=
  [("wasm", .modulePath), ("code", .code), ("code-file", .codePath)]

/-- The flags, by their names. -/
def flags : List (String × Flag) :=
  [("selectors", .analysis .selectors), ("arguments", .analysis .arguments),
    ("state-mutability", .analysis .stateMutability), ("storage", .analysis .storage),
    ("disassemble", .analysis .disassemble), ("basic-blocks", .analysis .basicBlocks),
    ("control-flow-graph", .analysis .controlFlowGraph), ("all", .all), ("pretty", .pretty),
    ("version", .version), ("help", .help)]

namespace Arguments

/-- Raises a flag that has not been raised before. -/
def raise (args : Arguments) : Flag → Except ArgumentsEnd Arguments
  | .analysis a =>
    if a ∈ args.analyses then .error .usage else .ok { args with analyses := args.analyses ++ [a] }
  | .all => if args.all then .error .usage else .ok { args with all := true }
  | .pretty => if args.pretty then .error .usage else .ok { args with pretty := true }
  | .version => .error .version
  | .help => .error .help

/-- Gives an option that has no value yet its value. Paths are not empty, and code is Unicode. -/
def assign (args : Arguments) (option : ValueOption) (value : Bytes) :
    Except ArgumentsEnd Arguments :=
  match option with
  | .modulePath =>
    if args.modulePath.isSome || value = [] then .error .usage
    else .ok { args with modulePath := some value }
  | .codePath =>
    if args.codePath.isSome || value = [] then .error .usage
    else .ok { args with codePath := some value }
  | .code =>
    match Bytes.text? value with
    | none => .error .usage
    | some code => if args.code.isSome then .error .usage else .ok { args with code := some code }

/-- What an argument looks like. -/
inductive Shape where
  /-- Two hyphens alone. -/
  | separator
  /-- An option by its name, with the value that is joined to it. -/
  | option (name : Bytes) (value : Option Bytes)
  /-- Letters after one hyphen. -/
  | letters (letters : Bytes)
  /-- Anything else. -/
  | plain
  deriving DecidableEq, Repr

/-- What an argument looks like. A single hyphen is nothing special. -/
def Shape.ofBytes : Bytes → Shape
  | [45, 45] => .separator
  | 45 :: 45 :: rest =>
    let name := rest.takeWhile (· ≠ 61)
    let value := match rest.dropWhile (· ≠ 61) with
      | _ :: joined => some joined
      | [] => none
    .option name value
  | 45 :: letter :: rest => .letters (letter :: rest)
  | _ => .plain

/-- Acts on an option by its name. With a value that has still to come, the option is handed
back. -/
def readOption (args : Arguments) (name : Bytes) (value : Option Bytes) :
    Except ArgumentsEnd (Arguments × Option ValueOption) :=
  match Bytes.text? name with
  | none => .error .usage
  | some text =>
    match valueOptions.lookup text, flags.lookup text, value with
    | some option, _, some joined => (args.assign option joined).map (·, none)
    | some option, _, none => .ok (args, some option)
    | none, some flag, none => (args.raise flag).map (·, none)
    | none, _, _ => .error .usage

/-- Acts on letters after one hyphen; only two letters mean anything, and both end the reading. -/
def readLetters : Bytes → ArgumentsEnd
  | 86 :: _ => .version
  | 104 :: _ => .help
  | _ => .usage

/-- Reads arguments after those in `args`, where `pending` is an option that waits for its
value. -/
def readFrom (args : Arguments) (pending : Option ValueOption) :
    List Bytes → Except ArgumentsEnd Arguments
  | [] => if pending.isSome then .error .usage else .ok args
  | arg :: rest =>
    match Shape.ofBytes arg, pending with
    | .plain, some option =>
      match args.assign option arg with
      | .error e => .error e
      | .ok longer => readFrom longer none rest
    | _, some _ => .error .usage
    | .plain, none => .error .usage
    | .separator, none => if rest = [] then .ok args else .error .usage
    | .letters letters, none => .error (readLetters letters)
    | .option name value, none =>
      match args.readOption name value with
      | .error e => .error e
      | .ok (longer, next) => readFrom longer next rest

/-- Reads all arguments. The code is given exactly once, in one of its two ways. -/
def read (all : List Bytes) : Except ArgumentsEnd Arguments :=
  match readFrom {} none all with
  | .error e => .error e
  | .ok args => if args.code.isSome == args.codePath.isSome then .error .usage else .ok args

/-- `Args.options`: the analyses that the arguments ask for; the selectors, if they ask for none. -/
def options (args : Arguments) : Options :=
  if args.all then .all
  else
    let chosen := args.analyses.foldl Options.enable .empty
    if chosen.isEmpty then chosen.enable .selectors else chosen

end Arguments

end EngineHost
