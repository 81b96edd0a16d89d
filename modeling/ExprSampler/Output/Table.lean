import ExprSampler.Output.Markup
import ExprSampler.Output.Value
import ExprSampler.Sampling

/-!
# Tables

A table has one row for each sample point, under a title that names the function. Cells are texts;
the value behind the second one is kept beside it, for it decides on the style.
-/

namespace ExprSampler

/-- One row: the texts of the point and of the value, and the value. -/
structure TableRow where
  point : String
  valueText : String
  value : Float

/-- A table of a sample run; both columns are aligned to the right. -/
structure SampleTable where
  title : String
  pointHeading : String
  rows : List TableRow

namespace SampleTable

/-- The heading of the second column. -/
def valueHeading : String := "value"

/-- The row of one sample. -/
def rowOf (precision : Option Int) (row : Float × Float) : Except ShowError TableRow := do
  let x ← formatValue precision row.1
  let y ← formatValue precision row.2
  return ⟨x, y, row.2⟩

/-- The table of samples of an expression. -/
def ofSamples (e : Expression) (s : Samples) (precision : Option Int) :
    Except ShowError SampleTable := do
  if !s.isEven then throw .unequalLengths
  let rows ← s.rows.mapM (rowOf precision)
  let name := shownName e.input
  return ⟨"f(" ++ name ++ ") = " ++ e.source, name, rows⟩

/-- The title as markup. -/
def titleMarkup (enabled : Bool) (t : SampleTable) : String :=
  Markup.brightWhite enabled t.title

/-- The cells of a row as markup. -/
def rowMarkup (enabled : Bool) (row : TableRow) : String × String :=
  (row.point, Markup.styleValue enabled row.value row.valueText)

end SampleTable

end ExprSampler
