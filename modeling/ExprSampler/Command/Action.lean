import ExprSampler.Command.Work
import ExprSampler.Output.Csv
import ExprSampler.Output.Document
import ExprSampler.Terminal.Screen

/-!
# Actions

What the three commands do once their arguments are known: evaluate an expression at points, sample
it over an interval, or show how it was understood. Arguments are checked before the expression is
read, and the expression before anything is printed.
-/

namespace ExprSampler

/-- Why an action fails. -/
inductive ActionError
  /-- An argument has a value that it must not have. -/
  | badArgument (message : String)
  /-- The command was used wrongly: the expression, the format or the points make no sense. -/
  | usage (message : String)
  /-- A value cannot be shown. -/
  | unshowable (cause : ShowError)
deriving Repr

/-- What an action needs to know of its surroundings. -/
structure Surroundings where
  logger : Logger
  /-- Whether lines are printed on a terminal. -/
  tty : Bool

namespace ActionError

/-- The wording of why an action fails. -/
def message : ActionError → String
  | badArgument message => message
  | usage message => message
  | unshowable cause => cause.message

/-- A text that is no expression. -/
def ofParseError (e : ParseError) : ActionError := .usage e.display

/-- Points that cannot be taken. -/
def ofSamplingError (e : SamplingError) : ActionError := .usage e.message

/-- A number of digits below zero. -/
def negativePrecision : ActionError := .badArgument "--precision must be non-negative"

end ActionError

/-! ## Evaluating -/

/-- What to evaluate. -/
structure EvalArguments where
  expression : String
  points : List Float
  precision : Option Int

namespace EvalArguments

/-- The arguments by name. -/
def named (a : EvalArguments) : List (String × JsonValue) :=
  [("expression", .str a.expression), ("points", .list (a.points.map .float)),
    ("precision", (a.precision.map .int).getD .null)]

/-- Prints the values of an expression at points, one on a line, until one cannot be shown. -/
def printValues (e : Expression) (precision : Option Int) :
    List Float → Printout ActionError Unit
  | [] => pure ()
  | x :: xs => do
    let text ← .ofExcept ((formatValue precision (e.eval x)).mapError .unshowable)
    .say [text]
    printValues e precision xs

/-- Prints the values of the expression at the points. -/
def run (a : EvalArguments) (s : Surroundings) : Printout ActionError Unit := do
  if a.precision.any fun p ↦ decide (p < 0) then .fail .negativePrecision
  let e ← (parseLogged s.logger a.expression).mapError .ofParseError
  .say (logEvaluating s.logger e a.points.length)
  printValues e a.precision a.points

end EvalArguments

/-! ## Sampling -/

/-- What to sample. -/
structure SampleArguments where
  expression : String
  start : Float
  stop : Float
  count : Int
  out : String
  precision : Int
  color : Option Bool

/-- A choice of colour that may be left open. -/
def colorValue (color : Option Bool) : JsonValue :=
  (color.map .bool).getD .null

namespace SampleArguments

/-- The arguments by name. -/
def named (a : SampleArguments) : List (String × JsonValue) :=
  [("expression", .str a.expression), ("start", .float a.start), ("stop", .float a.stop),
    ("count", .int a.count), ("out", .str a.out), ("precision", .int a.precision),
    ("color_flag", colorValue a.color)]

/-- The lines that show samples in a format. Only tables are coloured, on a terminal unless told
otherwise. -/
def report (a : SampleArguments) (tty : Bool) (e : Expression) (s : Samples) :
    OutputFormat → Except ShowError (List String)
  | .table => do
    let table ← SampleTable.ofSamples e s a.precision
    return Terminal.showTable (.of (a.color.getD tty) tty) table
  | .json => do
    return [← Document.ofSamples e s]
  | .csv => Csv.lines e s a.precision

/-- Prints samples of the expression. -/
def run (a : SampleArguments) (s : Surroundings) : Printout ActionError Unit := do
  if a.precision < 0 then .fail .negativePrecision
  let some format := OutputFormat.parse? a.out
    | .fail (.usage (OutputFormat.unsupportedMessage a.out))
  let e ← (parseLogged s.logger a.expression).mapError .ofParseError
  let samples ←
    (sampleLogged s.logger e a.start a.stop a.count).mapError .ofSamplingError
  let lines ← .ofExcept ((a.report s.tty e samples format).mapError .unshowable)
  .say lines

end SampleArguments

/-! ## Showing how a text was understood -/

/-- What to show. -/
structure ParseArguments where
  expression : String
  color : Option Bool

namespace ParseArguments

/-- The arguments by name. -/
def named (a : ParseArguments) : List (String × JsonValue) :=
  [("expression", .str a.expression), ("color_flag", colorValue a.color)]

/-- A line that says something about the expression under a heading. -/
def factLines (mode : Terminal.Mode) (heading fact : String) : List String :=
  Terminal.showLine mode
    [⟨Terminal.heading, heading.toList⟩, Terminal.plainPiece (' ' :: fact.toList)]

/-- Prints the text, the variable and the canonical text of the expression, and its tree. -/
def run (a : ParseArguments) (s : Surroundings) : Printout ActionError Unit := do
  let e ← (parseLogged s.logger a.expression).mapError .ofParseError
  let mode : Terminal.Mode := if a.color.getD s.tty then .colored else .plain
  .say (factLines mode "Expression:" e.source ++
    factLines mode "Variable:" (e.input.getD "none") ++
    factLines mode "Canonical:" e.canonical ++
    Terminal.showOutline mode (e.root.outline e.input))

end ParseArguments

end ExprSampler
