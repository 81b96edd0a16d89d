import ExprSampler.Decimal.Layout

/-!
# Values as text

A value is shown in its exact form or with a chosen number of significant digits. Numbers of digits
that are negative or too large are refused, but only when there is a finite value to apply them to.
-/

namespace ExprSampler

/-- Why samples cannot be shown. -/
inductive ShowError
  /-- No value can be shown with that many digits. -/
  | digits (count : Int)
  /-- There are not as many values as points. -/
  | unequalLengths
deriving DecidableEq, Repr

/-- The wording of why samples cannot be shown. -/
def ShowError.message : ShowError → String
  | digits count => "No value can be shown with " ++ toString count ++ " digits"
  | unequalLengths => "There are not as many values as points"

/-- The largest number of significant digits that may be asked for. -/
def maxPrecision : Int := 2147483647

/-- One value, exactly or with a number of significant digits. -/
def formatValue (precision : Option Int) (v : Float) : Except ShowError String :=
  if v.isFinite then
    match precision with
    | none => .ok (Binary64.exactText v)
    | some p =>
      if p < 0 ∨ maxPrecision < p then .error (.digits p)
      else .ok (Binary64.roundedText p.toNat v)
  else .ok (Binary64.exactText v)

end ExprSampler
