/-!
# Decimal numbers

A decimal is a whole number of units of some power of ten. The numbers of an expression are written
this way, and every double has an exact decimal of its own, so reading and printing doubles are both
arithmetic on decimals.
-/

namespace ExprSampler

/-- The number `digits * 10 ^ exponent`. -/
structure Decimal where
  digits : Nat
  exponent : Int
deriving DecidableEq, Repr

/-- The digits of a natural number, most significant first; zero has one digit. -/
def digitsOf (n : Nat) : List Char :=
  Nat.toDigits 10 n

/-- How many digits a natural number is written with. -/
def digitCount (n : Nat) : Nat :=
  (digitsOf n).length

/-- The number written by a list of digits, the empty list being zero. -/
def natOfDigits (cs : List Char) : Nat :=
  cs.foldl (fun n c ↦ 10 * n + (c.toNat - '0'.toNat)) 0

/-- A whole quotient rounded to the nearest integer; a half goes to the even neighbour. -/
def divRound (num den : Nat) : Nat :=
  let down := num / den
  match compare (2 * (num % den)) den with
  | .lt => down
  | .gt => down + 1
  | .eq => down + down % 2

namespace Decimal

/-- The decimal written with the given digits before and after the point. -/
def ofPlaces (whole fraction : List Char) : Decimal :=
  ⟨natOfDigits (whole ++ fraction), -fraction.length⟩

/-- The exponent of the leading digit. -/
def magnitude (d : Decimal) : Int :=
  digitCount d.digits - 1 + d.exponent

/-- The digits without the zeros at their end; zero keeps none. -/
def significant (d : Decimal) : List Char :=
  if d.digits = 0 then [] else ((digitsOf d.digits).reverse.dropWhile (· == '0')).reverse

/-- The decimal of at most `count` digits that is nearest, a half going to the even digit. -/
def roundTo (count : Nat) (d : Decimal) : Decimal :=
  let drop := digitCount d.digits - count
  if drop = 0 then d else ⟨divRound d.digits (Nat.pow 10 drop), d.exponent + drop⟩

end Decimal

end ExprSampler
