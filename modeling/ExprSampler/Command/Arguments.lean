import ExprSampler.Command.Action
import ExprSampler.Command.Words
import ExprSampler.Decimal.Reader

/-!
# Arguments

The arguments of a command from its words, with defaults for the options that are not among them.
Words that are no options of the command are refused first, then values that do not convert, then
operands that are missing, do not convert, or are too many.
-/

namespace ExprSampler.Command

/-- Why words make no command. -/
inductive Refusal
  | noSuchOption
  | noSuchCommand
  | badOptionUsage
  | missingOperand
  | badValue
  | usage
deriving DecidableEq, Repr

/-- The wording of why words make no command. -/
def Refusal.message : Refusal → String
  | noSuchOption => "No such option"
  | noSuchCommand => "No such command"
  | badOptionUsage => "An option lacks its value, or has one that it does not take"
  | missingOperand => "Missing argument"
  | badValue => "Invalid value"
  | usage => "Missing command or unexpected argument"

/-- Words that cannot be read. -/
def Refusal.ofWordError : WordError → Refusal
  | .noSuchOption => .noSuchOption
  | .badUsage => .badOptionUsage

/-- The words of a command whose options may stand anywhere. -/
def readWords (names : List OptionName) (words : List String) : Except Refusal Words :=
  (Words.read names true words).mapError .ofWordError

/-- The value of an option: the last one given, read by `read?`, or nothing if none is given. -/
def valueOf {α : Type} (read? : String → Option α) (w : Words) (key : OptionKey) :
    Except Refusal (Option α) :=
  match w.last? key with
  | none => .ok none
  | some text =>
    match read? text with
    | some a => .ok (some a)
    | none => .error .badValue

/-- The choice of colour: the last one given. -/
def colorOf (w : Words) : Option Bool :=
  (w.given.filterMap fun g ↦
    match g.1 with
    | .color => some true
    | .noColor => some false
    | _ => none).getLast?

/-- The only operand. -/
def onlyOperand : List String → Except Refusal String
  | [] => .error .missingOperand
  | [operand] => .ok operand
  | _ => .error .usage

/-- The ways to write the choice of colour. -/
def colorNames : List OptionName := [⟨"--color", .color⟩, ⟨"--no-color", .noColor⟩]

/-- The arguments for evaluating. -/
def evalArguments (settings : Settings) (words : List String) : Except Refusal EvalArguments := do
  let w ← readWords [⟨"--precision", .precision⟩] words
  let precision ← valueOf readInt? w .precision
  match w.operands with
  | [] | [_] => .error .missingOperand
  | expression :: points =>
    match points.mapM readFloat? with
    | none => .error .badValue
    | some points => return ⟨expression, points, precision <|> settings.precision⟩

/-- The options for sampling. -/
def sampleNames : List OptionName :=
  [⟨"--start", .start⟩, ⟨"--stop", .stop⟩, ⟨"--count", .count⟩, ⟨"-n", .count⟩, ⟨"--out", .out⟩,
    ⟨"--precision", .precision⟩] ++ colorNames

/-- The arguments for sampling: by default 21 points from -10 to 10, in a table of six digits. -/
def sampleArguments (settings : Settings) (words : List String) :
    Except Refusal SampleArguments := do
  let w ← readWords sampleNames words
  let start ← valueOf readFloat? w .start
  let stop ← valueOf readFloat? w .stop
  let count ← valueOf readInt? w .count
  let precision ← valueOf readInt? w .precision
  let expression ← onlyOperand w.operands
  return {
    expression
    start := (start <|> settings.start).getD (-10.0)
    stop := (stop <|> settings.stop).getD 10.0
    count := (count <|> settings.count).getD 21
    out := (w.last? .out).getD (settings.out.getD .table).name
    precision := (precision <|> settings.precision).getD 6
    color := colorOf w <|> settings.color }

/-- The arguments for showing how a text was understood. -/
def parseArguments (settings : Settings) (words : List String) :
    Except Refusal ParseArguments := do
  let w ← readWords colorNames words
  let expression ← onlyOperand w.operands
  return ⟨expression, colorOf w <|> settings.color⟩

end ExprSampler.Command
