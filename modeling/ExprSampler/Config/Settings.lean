import ExprSampler.Decimal.Binary64
import ExprSampler.Json.Value
import ExprSampler.Output.Format

/-!
# Settings

A configuration gives defaults for the options of the commands. Each entry is named like its option
and checked on its own: bounds are finite, counts are positive, and yes or no is no number, except
as a verbosity. One entry that does not hold spoils the configuration.
-/

namespace ExprSampler

/-- What makes a configuration unusable. -/
inductive ConfigError
  /-- It is not what a configuration has to be. -/
  | malformed
  /-- The file is not UTF-8. -/
  | notUtf8
  /-- It holds an integer of too many digits. -/
  | tooManyDigits
  /-- Its lists and objects are nested too deeply for the reader. -/
  | tooDeep
  /-- A bound is an integer beyond every double. -/
  | tooLarge
  /-- The name of the file holds a character that no name can. -/
  | badName
deriving DecidableEq, Repr

/-- The wording of what makes a configuration unusable. -/
def ConfigError.message : ConfigError → String
  | malformed => "Malformed config"
  | notUtf8 => "The config is not UTF-8"
  | tooManyDigits => "The config holds an integer of too many digits"
  | tooDeep => "The config is nested too deeply"
  | tooLarge => "The config holds a bound that is too large"
  | badName => "The name of the config holds a null character"

/-- The options that can have a default. -/
inductive Setting
  | color
  | count
  | out
  | precision
  | start
  | stop
deriving DecidableEq, Repr

namespace Setting

/-- All settings, in the order of their keys. -/
def all : List Setting := [color, count, out, precision, start, stop]

/-- The key under which commands know the setting. -/
def key : Setting → String
  | color => "color_flag"
  | count => "count"
  | out => "out"
  | precision => "precision"
  | start => "start"
  | stop => "stop"

/-- How the option is named. -/
def optionName : Setting → String
  | color => "--color/--no-color"
  | count => "--count"
  | out => "--out"
  | precision => "--precision"
  | start => "--start"
  | stop => "--stop"

/-- Whether a command has the option. -/
def appliesTo (command : String) : Setting → Bool
  | precision => command == "eval" || command == "sample"
  | color => command == "sample" || command == "parse"
  | _ => command == "sample"

end Setting

/-- Defaults for options. -/
structure Settings where
  color : Option Bool
  count : Option Int
  out : Option OutputFormat
  precision : Option Int
  start : Option Float
  stop : Option Float
  verbose : Option Int
deriving DecidableEq, Repr

namespace Settings

/-- No defaults. -/
def none : Settings :=
  ⟨.none, .none, .none, .none, .none, .none, .none⟩

/-- The default of an option, if there is one. -/
def get? (s : Settings) : Setting → Option JsonValue
  | .color => s.color.map .bool
  | .count => s.count.map .int
  | .out => s.out.map fun f ↦ .str f.name
  | .precision => s.precision.map .int
  | .start => s.start.map .float
  | .stop => s.stop.map .float

/-- The defaults that concern a command, in the order of their keys. -/
def forCommand (command : String) (s : Settings) : List (Setting × JsonValue) :=
  (Setting.all.filter fun k ↦ k.appliesTo command).filterMap fun k ↦ (s.get? k).map (k, ·)

/-! ## Checking entries -/

/-- A finite number, from an integer or a double. -/
def validFloat (value : JsonValue) : Except ConfigError (Option Float) :=
  match value with
  | .int n =>
    let v := Binary64.ofInt n
    if v.isFinite then .ok (some v) else .error .tooLarge
  | .float v => .ok (if v.isFinite then some v else .none)
  | _ => .ok .none

/-- An integer that is not too small; yes and no count as one and zero. -/
def validInt (least : Int) (value : JsonValue) : Option Int :=
  match value with
  | .int n => if least ≤ n then some n else .none
  | .bool b =>
    let n : Int := if b then 1 else 0
    if least ≤ n then some n else .none
  | _ => .none

/-- An integer that is not too small and was not given as yes or no. -/
def validNumber (least : Int) (value : JsonValue) : Option Int :=
  match value with
  | .bool _ => .none
  | value => validInt least value

/-- The format that a value names. -/
def validFormat (value : JsonValue) : Option OutputFormat :=
  match value with
  | .str s => OutputFormat.parse? s
  | _ => .none

/-- A value that has to be there. -/
def required {α : Type} : Option α → Except ConfigError α
  | some a => .ok a
  | .none => .error .malformed

/-- The settings with one more entry of a configuration. -/
def apply (s : Settings) (entry : String × JsonValue) : Except ConfigError Settings :=
  let (key, value) := entry
  if key = "--start" then do
    let v ← required (← validFloat value)
    return { s with start := some v }
  else if key = "--stop" then do
    let v ← required (← validFloat value)
    return { s with stop := some v }
  else if key = "--count" then do
    let n ← required (validNumber 1 value)
    return { s with count := some n }
  else if key = "--precision" then do
    let n ← required (validNumber 0 value)
    return { s with precision := some n }
  else if key = "--verbose" then do
    let n ← required (validInt 0 value)
    return { s with verbose := some n }
  else if key = "--out" then do
    let f ← required (validFormat value)
    return { s with out := some f }
  else .error .malformed

/-! ## Colour -/

/-- Whether an entry is about colour. -/
def isColorKey (key : String) : Bool :=
  key == "--color" || key == "--no-color"

/-- An entry that can be absent or must be yes or no. -/
def flag? (key : String) (entries : List (String × JsonValue)) : Option Bool :=
  match valueAt? key entries with
  | .none => some false
  | some (.bool b) => some b
  | some _ => .none

/-- The default for colour, if the entries about it make sense: colour is asked for or refused, and
not both. -/
def colorOf (entries : List (String × JsonValue)) : Option (Option Bool) :=
  match flag? "--color" entries, flag? "--no-color" entries with
  | some true, some true => .none
  | some true, some false => some (some true)
  | some false, some true => some (some false)
  | some false, some false => some .none
  | _, _ => .none

/-- The settings that the entries of a configuration make. -/
def ofEntries (entries : List (String × JsonValue)) : Except ConfigError Settings := do
  let color ← required (colorOf entries)
  (entries.filter fun e ↦ !isColorKey e.1).foldlM apply { none with color := color }

/-- The entries of the only section that a configuration has. -/
def sectionOf (config : List (String × JsonValue)) : Option (List (String × JsonValue)) :=
  if config.any fun e ↦ e.1 != "defaults" then .none
  else match valueAt? "defaults" config with
    | .none => some []
    | some (.object entries) => some entries
    | some _ => .none

end Settings

end ExprSampler
