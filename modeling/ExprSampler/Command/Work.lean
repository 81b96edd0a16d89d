import ExprSampler.Command.Printout
import ExprSampler.Config.Settings
import ExprSampler.Log.Logger
import ExprSampler.Log.Shown
import ExprSampler.Sampling

/-!
# Logged work

Parsing and sampling as the commands do them, with the log lines they print on the way, and the log
lines that tell which defaults and arguments a command runs on.
-/

namespace ExprSampler

/-- Parses a text; what was understood is logged for debugging. -/
def parseLogged (logger : Logger) (text : String) : Printout ParseError Expression := do
  let e ← .ofExcept (Expression.parse text)
  .say (logger.emit .debug ("Parsed expression " ++ Text.quote e.source ++ " (variable: " ++
    e.input.getD "None" ++ ")"))
  return e

/-- Samples an expression; the run is logged unless its points cannot be taken. -/
def sampleLogged (logger : Logger) (e : Expression) (start stop : Float) (count : Int) :
    Printout SamplingError Samples := do
  let samples ← .ofExcept (e.sample start stop count)
  .say (logger.emit .info ("Sampling " ++ Text.quote e.source ++ " at " ++ toString count ++
    " points in [" ++ Binary64.exactText start ++ ", " ++ Binary64.exactText stop ++ "]"))
  return samples

/-- Logs that an expression is evaluated at a number of points. -/
def logEvaluating (logger : Logger) (e : Expression) (count : Nat) : List String :=
  logger.emit .info ("Evaluating " ++ Text.quote e.source ++ " at " ++ toString count ++ " points")

/-- Logs the defaults that concern a command, if there are any. -/
def logDefaults (logger : Logger) (settings : Settings) (command : String) : List String :=
  match settings.forCommand command with
  | [] => []
  | entries =>
    logger.emit .info ("Config defaults applied (" ++ command ++ "): " ++
      shownList (entries.map fun e ↦ (e.1.optionName, e.2)))

/-- Logs the arguments that a command runs on, in the order of their names. -/
def logArguments (logger : Logger) (command : String) (arguments : List (String × JsonValue)) :
    List String :=
  logger.emit .info ("Command arguments (" ++ command ++ "): " ++
    shownList (arguments.mergeSort fun a b ↦ decide (a.1 ≤ b.1)))

end ExprSampler
