import ExprSampler.Decimal.Basic

/-!
# Doubles as whole numbers of steps

Every finite double is a whole number of the smallest positive one, `2 ^ -1074`, and the doubles
from `0` upwards are numbered by their bit patterns in order of size. Both views stay in the natural
numbers: `steps` gives the size of the double with a given number, `nearest` the number of the
double nearest to a quotient. Nothing is rounded more than once.
-/

namespace ExprSampler.Binary64

/-- The steps in one. -/
def one : Nat := Nat.pow 2 1074

/-- The number of the infinity, one past the largest finite double. -/
def infinity : Nat := 0x7FF0000000000000

/-- The size of the finite double with the given number, in steps. -/
def steps (number : Nat) : Nat :=
  let leading := Nat.pow 2 52
  if number < leading then number
  else (leading + number % leading) * Nat.pow 2 (number / leading - 1)

/-- The number of the double nearest to `num / den`, the one with even number of two; past the
largest finite double this is the infinity. The quotient is cut to 53 significant bits, or to a
whole number of steps where those are coarser. -/
def nearest (num den : Nat) : Nat :=
  let shift := (num * one / den).log2 - 52
  min infinity (shift * Nat.pow 2 52 + divRound (num * one) (den * Nat.pow 2 shift))

/-- The exact decimal of the finite double with the given number. -/
def toDecimal (number : Nat) : Decimal :=
  let size := steps number
  let common := Nat.gcd size one
  let places := (one / common).log2
  ⟨size / common * Nat.pow 5 places, -places⟩

end ExprSampler.Binary64

namespace ExprSampler.Decimal

/-- The number of the double nearest to a decimal. A decimal below `10 ^ -330` is nearest to zero
and one from `10 ^ 310` is past every finite double, whatever its digits. -/
def toNumber (d : Decimal) : Nat :=
  if d.digits = 0 ∨ d.magnitude < -330 then 0
  else if 310 ≤ d.magnitude then Binary64.infinity
  else Binary64.nearest (d.digits * Nat.pow 10 d.exponent.toNat) (Nat.pow 10 (-d.exponent).toNat)

/-- The double nearest to a decimal. -/
def toFloat (d : Decimal) : Float :=
  Float.ofBits d.toNumber.toUInt64

/-- The double nearest to a signed decimal; a negative zero keeps its sign. -/
def toSignedFloat (negative : Bool) (d : Decimal) : Float :=
  if negative then -d.toFloat else d.toFloat

end ExprSampler.Decimal

namespace ExprSampler.Binary64

/-- The double nearest to an integer. -/
def ofInt (n : Int) : Float :=
  Decimal.toSignedFloat (n < 0) ⟨n.natAbs, 0⟩

/-- Whether the sign bit is set; a double that is no number has no sign. -/
def isNegative (v : Float) : Bool :=
  !v.isNaN && decide (Nat.pow 2 63 ≤ v.toBits.toNat)

/-- The number of the absolute value. -/
def number (v : Float) : Nat :=
  v.toBits.toNat % Nat.pow 2 63

end ExprSampler.Binary64
