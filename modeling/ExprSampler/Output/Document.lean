import ExprSampler.Json.Printer
import ExprSampler.Output.Value
import ExprSampler.Sampling

/-!
# JSON documents

Samples as one JSON object: the text of the expression, the name of its variable, and a list of
points and values. JSON has no numerals for infinities and for what is no number, so these are named
by strings.
-/

namespace ExprSampler

namespace Document

/-- A double in a document. -/
def number (v : Float) : JsonValue :=
  if v.isFinite then .float v else .str (Binary64.exactText v)

/-- One sample in a document. -/
def row (r : Float × Float) : JsonValue :=
  .object [("x", number r.1), ("y", number r.2)]

/-- The name of the variable in a document. -/
def inputName : Option String → JsonValue
  | none => .null
  | some name => .str name

/-- The document of samples of an expression, as a value. -/
def value (e : Expression) (s : Samples) : JsonValue :=
  .object [("expression", .str e.source), ("variable", inputName e.input),
    ("samples", .list (s.rows.map row))]

/-- The document of samples of an expression. -/
def ofSamples (e : Expression) (s : Samples) : Except ShowError String :=
  if s.isEven then .ok (value e s).print else .error .unequalLengths

end Document

end ExprSampler
