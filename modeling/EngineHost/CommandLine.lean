import EngineHost.Analyzer
import EngineHost.Arguments
import EngineHost.Contract.Encode

/-!
# The command line program

Analyzes one contract and writes the result as JSON. The program ends with 0 if there is a result,
with 1 if there is none, and with 2 if the arguments break the rules.
-/

namespace EngineHost

/-- How the program ends. -/
structure Completion where
  /-- The exit status. -/
  status : Nat
  /-- What it writes. -/
  output : Bytes := []
  /-- What it complains about. -/
  complaint : Option String := none

namespace CommandLine

/-- The name and the version of the program. -/
def versionText : String := "evmole-host 0.1.0"

/-- Why the program has no result. -/
inductive Failure where
  /-- The file with the code cannot be read. -/
  | codeUnreadable (path : Bytes) (fault : FileFault)
  /-- The file with the code holds no Unicode. -/
  | codeNotUnicode (path : Bytes)
  | load (fault : LoadFault)
  | analysis (error : Error)
  | close (error : Error)

/-- The wording of a failure. -/
def Failure.message : Failure → String
  | .codeUnreadable path fault =>
    "reading bytecode from " ++ Bytes.lossyText path ++ ": " ++ fault.message
  | .codeNotUnicode path =>
    "reading bytecode from " ++ Bytes.lossyText path ++ ": stream did not contain valid UTF-8"
  | .load fault => "loading analysis engine: " ++ (Error.load fault).message
  | .analysis error => "analyzing contract: " ++ error.message
  | .close error => error.message

/-- `Args.code`: the code that the arguments give, in hexadecimal. -/
def code (files : Files) (args : Arguments) : Except Failure String :=
  match args.code, args.codePath with
  | some text, _ => .ok text
  | none, path =>
    let path := path.getD []
    match files path with
    | .error fault => .error (.codeUnreadable path fault)
    | .ok bytes =>
      match Bytes.text? bytes with
      | none => .error (.codeNotUnicode path)
      | some text => .ok text

/-- The configuration of the program: that of the environment, with one handle, and with the module
that the arguments name. -/
def config (env : Environment) (args : Arguments) : Config :=
  let base := (Config.ofEnvironment env).withPoolSize 1
  match args.modulePath with
  | some path => base.withModulePath path
  | none => base

/-- The files that the program may read. -/
def paths (env : Environment) (arguments : List Bytes) : List Bytes :=
  match Arguments.read arguments with
  | .error _ => []
  | .ok args => args.codePath.toList ++ (config env args).modulePath.toList

/-- The contract that the arguments ask for. -/
def analyze {σ : Type} (compiler : Compiler σ) (files : Files) (env : Environment)
    (args : Arguments) : Except Failure Contract := do
  let text ← code files args
  let analyzer ←
    match Analyzer.ofConfig compiler files env 1 (config env args) with
    | .error fault => .error (.load fault)
    | .ok analyzer => .ok analyzer
  match analyzer.analyzeHex text args.options with
  | (.error e, _) => .error (.analysis e)
  | (.ok contract, used) =>
    match used.close.1 with
    | .error e => .error (.close e)
    | .ok () => .ok contract

/-- A contract as the program writes it. -/
def output (pretty : Bool) (contract : Contract) : Bytes :=
  (if pretty then contract.toJson.pretty 0 else contract.toJson.compact) ++ [10]

/-- Runs the program, as `main` and `run` do. -/
def run {σ : Type} (compiler : Compiler σ) (files : Files) (env : Environment)
    (arguments : List Bytes) : Completion :=
  match Arguments.read arguments with
  | .error .usage => { status := 2 }
  | .error .help => { status := 0 }
  | .error .version => { status := 0, output := Bytes.ofText versionText ++ [10] }
  | .ok args =>
    match analyze compiler files env args with
    | .error failure => { status := 1, complaint := some ("error: " ++ failure.message) }
    | .ok contract => { status := 0, output := output args.pretty contract }

end CommandLine

end EngineHost
