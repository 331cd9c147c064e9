import EngineHost.Bytes
import EngineHost.Decimal.Natural
import EngineHost.Text.Blank

/-!
# Environment variables

The value of an environment variable is a byte string, or it is unset. A variable that is read as
a text has to be valid Unicode; one that is not counts as unset.
-/

namespace EngineHost

/-- The variables that are set. -/
structure Environment where
  /-- Names and values; of two entries with one name the first counts. -/
  settings : List (String × Bytes) := []

namespace Environment

/-- The value of a variable. -/
def get? (env : Environment) (name : String) : Option Bytes :=
  (env.settings.find? (·.1 = name)).map (·.2)

/-- The value of a variable as a text, if it is set and valid Unicode. -/
def text? (value : Option Bytes) : Option String := value.bind Bytes.text?

/-- `env_var`: the value of a variable, read from its text without the blanks at its ends. -/
def parsed {α : Type} (read : String → Option α) (value : Option Bytes) : Option α :=
  (text? value).bind fun s => read (Text.trim s)

/-- A natural number below `bound`: digits, after an optional plus sign. -/
def natural? (bound : Nat) (s : String) : Option Nat :=
  let bs := Bytes.ofText s
  let digits := match bs with
    | 43 :: rest => rest
    | _ => bs
  if digits = [] then none
  else (Decimal.digits? digits).bind fun ds =>
    if Decimal.value ds < bound then some (Decimal.value ds) else none

/-- An integer of 64 bits: digits, after an optional sign. -/
def integer? (s : String) : Option Int :=
  match Bytes.ofText s with
  | 45 :: rest =>
    if rest = [] then none
    else (Decimal.digits? rest).bind fun ds =>
      if Decimal.value ds ≤ 0x8000000000000000 then some (-(Decimal.value ds : Int)) else none
  | _ => (natural? 0x8000000000000000 s).map Int.ofNat

/-- A truth value, written as one of its two names. -/
def boolean? (s : String) : Option Bool :=
  if s = "true" then some true else if s = "false" then some false else none

/-- The words that `is_truthy` takes for "on". -/
def onWords : List String := ["1", "true", "yes", "on"]

/-- `env_bool_or`: a variable that switches something on or off. What is set to anything but a word
for "on", in letters of either case, is off. The words hold ASCII letters alone, and no letter
outside ASCII has one of them as its lower case. -/
def switch (default : Bool) (value : Option Bytes) : Bool :=
  match text? value with
  | none => default
  | some s => onWords.contains (String.ofList ((Text.trim s).toList.map Char.toLower))

/-- `env_path`: a path, if the variable is set and not empty. A path need not be Unicode. -/
def path? (value : Option Bytes) : Option Bytes := value.filter (· ≠ [])

end Environment

end EngineHost
