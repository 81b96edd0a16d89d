import ExprSampler.Decimal.Binary64

/-!
# Raising doubles to powers

Powers follow the IEEE rules: the cases that a limit decides (zeros, infinities, exponents without
effect, values that are no number) are stated here one by one, and only a finite base other than
zero with a finite exponent other than zero is left to the arithmetic of the machine.

An exponent known to be a single value has a second rule: five exponents stand for the operation
they abbreviate. The two rules part at zeros and infinities, `(-0) ^ 0.5` being the smallest
example.
-/

namespace ExprSampler.Binary64

/-- A double that is no number. -/
def notANumber : Float := 0.0 / 0.0

/-- The positive infinity. -/
def positiveInfinity : Float := 1.0 / 0.0

/-- Whether a finite double is an odd integer. -/
def isOddInteger (v : Float) : Bool :=
  v.isFinite && steps (number v) % (2 * one) == one

/-- An infinite result where `large`, else a zero; its sign is negative where `negative`. -/
def extreme (large negative : Bool) : Float :=
  let size := if large then positiveInfinity else 0.0
  if negative then -size else size

/-- The power of a base to an exponent. -/
def power (b e : Float) : Float :=
  if e == 0.0 then 1.0
  else if b == 1.0 then 1.0
  else if b.isNaN || e.isNaN then notANumber
  else if e.isInf then
    if b == -1.0 then 1.0 else extreme ((b.abs < 1.0) == (e < 0.0)) false
  else if b == 0.0 || b.isInf then
    extreme (b.isInf == (0.0 < e)) (isNegative b && isOddInteger e)
  else Float.pow b e

/-- The power of a base to an exponent known to be a single value: `-1`, `0`, `0.5`, `1` and `2`
stand for the reciprocal, one, the square root, the base itself and its square. -/
def powerBySingle (b e : Float) : Float :=
  if e == -1.0 then 1.0 / b
  else if e == 0.0 then 1.0
  else if e == 0.5 then b.sqrt
  else if e == 1.0 then b
  else if e == 2.0 then b * b
  else power b e

end ExprSampler.Binary64
