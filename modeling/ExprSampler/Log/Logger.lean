/-!
# The logger

Log lines go to the same place as results, before them. The logger has a level and, while it is to
print anything, one handler that prints lines of its own level and above. How often `-v` was given
decides on the level.
-/

namespace ExprSampler

/-- How important a log line is. -/
inductive LogLevel
  | debug
  | info
  | warning
deriving DecidableEq, Repr

/-- Levels as numbers, the more important the larger. -/
def LogLevel.value : LogLevel → Nat
  | debug => 10
  | info => 20
  | warning => 30

/-- The level for a number of `-v`: warnings only, information, and from two on everything. -/
def LogLevel.ofVerbosity (verbosity : Int) : LogLevel :=
  if verbosity ≤ 0 then .warning
  else if verbosity = 1 then .info
  else .debug

/-- A logger: its level, the levels of its handlers, and whether lines also go to the handlers of
others. -/
structure Logger where
  level : LogLevel
  handlers : List LogLevel
  propagates : Bool
deriving DecidableEq, Repr

namespace Logger

/-- A logger that prints nothing. -/
def quiet : Logger := ⟨.warning, [], false⟩

/-- The logger set up for a number of `-v`. A logger for warnings alone needs no handler; any other
has one, and one that it has already is kept. -/
def configure (verbosity : Int) (l : Logger) : Logger :=
  let level := LogLevel.ofVerbosity verbosity
  match level, l.handlers with
  | .warning, _ => ⟨level, [], false⟩
  | _, [] => ⟨level, [level], false⟩
  | _, _ :: others => ⟨level, level :: others, false⟩

/-- Whether lines of a level are logged at all. -/
def isEnabled (level : LogLevel) (l : Logger) : Bool :=
  decide (l.level.value ≤ level.value)

/-- What logging a line of the given level prints. -/
def emit (level : LogLevel) (text : String) (l : Logger) : List String :=
  if l.isEnabled level then
    (l.handlers.filter fun h ↦ decide (h.value ≤ level.value)).map fun _ ↦ text
  else []

end Logger

end ExprSampler
