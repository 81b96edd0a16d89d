import ExprSampler.Output.Value
import ExprSampler.Sampling

/-!
# CSV

One line of headings and one for each sample, the fields set apart by commas. A field that holds a
comma, a quote or a line end stands in quotes, its own quotes being doubled.
-/

namespace ExprSampler

namespace Csv

/-- Whether a field must stand in quotes. -/
def needsQuotes (cs : List Char) : Bool :=
  cs.any fun c ↦ c == ',' || c == '"' || c == '\r' || c == '\n'

/-- A field as it is written. -/
def fieldChars (cs : List Char) : List Char :=
  if needsQuotes cs then
    '"' :: (cs.flatMap fun c ↦ if c = '"' then ['"', '"'] else [c]) ++ ['"']
  else cs

/-- A field as it is written. -/
def field (s : String) : String :=
  String.ofList (fieldChars s.toList)

/-- A line of fields. -/
def line (fields : List String) : String :=
  ",".intercalate (fields.map field)

/-- The line of one sample. -/
def rowLine (precision : Option Int) (row : Float × Float) : Except ShowError String := do
  let x ← formatValue precision row.1
  let y ← formatValue precision row.2
  return line [x, y]

/-- The lines of samples of an expression. -/
def lines (e : Expression) (s : Samples) (precision : Option Int) :
    Except ShowError (List String) := do
  if !s.isEven then throw .unequalLengths
  let rows ← s.rows.mapM (rowLine precision)
  return line [shownName e.input, "value"] :: rows

/-- Lines one after another, each with its end. -/
def endedLines (lines : List String) : List Char :=
  lines.flatMap fun line ↦ line.toList ++ ['\n']

/-- Samples of an expression as CSV; no line end stands at the end of the text. -/
def ofSamples (e : Expression) (s : Samples) (precision : Option Int) :
    Except ShowError String := do
  let written := endedLines (← lines e s precision)
  return String.ofList (written.reverse.dropWhile (· == '\n')).reverse

end Csv

end ExprSampler
