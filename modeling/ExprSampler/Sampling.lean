import ExprSampler.Expression

/-!
# Sampling

A sample run evaluates an expression at evenly spaced points, both bounds included. The points are
computed in doubles, as a step count times the step plus the start, so each carries two roundings
and only the last is exact by decree.
-/

namespace ExprSampler

/-- Why points cannot be taken. -/
inductive SamplingError
  | tooFew (count : Int)
  | unbounded (start stop : Float)
  | emptyInterval (count : Int) (start : Float)
deriving Repr

/-- The wording of a sampling error. -/
def SamplingError.message : SamplingError → String
  | tooFew count => "Sample count must be at least 1, got " ++ toString count
  | unbounded start stop =>
    "Sample bounds must be finite, got " ++ Binary64.exactText start ++ " and " ++
      Binary64.exactText stop
  | emptyInterval count start =>
    "Cannot take " ++ toString count ++ " samples over the empty interval at " ++
      Binary64.exactText start

/-- The `i`th of evenly spaced points, `gaps` of which lie between the first and the last. Where the
step is too small to be told from zero, the share of the whole distance is taken first. -/
def pointAt (start stop : Float) (gaps i : Nat) : Float :=
  let delta := stop - start
  let step := delta / Binary64.ofInt gaps
  if gaps = 0 then Binary64.ofInt i * delta + start
  else if i = gaps then stop
  else if step == 0.0 then Binary64.ofInt i / Binary64.ofInt gaps * delta + start
  else Binary64.ofInt i * step + start

/-- Evenly spaced points, both bounds included. -/
def evenlySpaced (start stop : Float) (count : Nat) : List Float :=
  (List.range count).map (pointAt start stop (count - 1))

/-- The points of a sample run, if its bounds and count allow one: at least one point, finite
bounds, and an interval to spread several points over. -/
def samplePoints (start stop : Float) (count : Int) : Except SamplingError (List Float) :=
  if count < 1 then .error (.tooFew count)
  else if !start.isFinite || !stop.isFinite then .error (.unbounded start stop)
  else if 1 < count && start == stop then .error (.emptyInterval count start)
  else .ok (evenlySpaced start stop count.toNat)

/-- Points and the values there. -/
structure Samples where
  xs : List Float
  ys : List Float

namespace Samples

/-- How many points there are. -/
def length (s : Samples) : Nat :=
  s.xs.length

/-- Points paired with their values. -/
def rows (s : Samples) : List (Float × Float) :=
  s.xs.zip s.ys

/-- Whether there are as many values as points. -/
def isEven (s : Samples) : Bool :=
  s.xs.length == s.ys.length

end Samples

/-- The values of an expression at evenly spaced points. -/
def Expression.sample (e : Expression) (start stop : Float) (count : Int) :
    Except SamplingError Samples := do
  let xs ← samplePoints start stop count
  return ⟨xs, e.evalList xs⟩

end ExprSampler
