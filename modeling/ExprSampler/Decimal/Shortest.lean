import ExprSampler.Decimal.Binary64

/-!
# The shortest decimal of a double

The decimal with the fewest digits that reads back as the given double and, of those, the one
nearest to it. For each number of digits only the two neighbours of the exact value on that grid can
qualify, and each is tried by reading it back. Seventeen digits always suffice; the exact decimal
stands at the end of the search, so that what it returns reads back by construction.
-/

namespace ExprSampler.Binary64

/-- A decimal of `count` digits for the double with the given number and its exact decimal, which
has `size` digits: of its neighbours on that grid that read back, the nearer one, and of two as near
the even one. -/
def candidate (number : Nat) (exact : Decimal) (size count : Nat) : Option Decimal :=
  let drop := size - count
  let unit := Nat.pow 10 drop
  let below : Decimal := ⟨exact.digits / unit, exact.exponent + drop⟩
  let above : Decimal := ⟨exact.digits / unit + 1, exact.exponent + drop⟩
  if drop = 0 then some exact
  else if below.toNumber = number then
    if above.toNumber = number then some ⟨divRound exact.digits unit, exact.exponent + drop⟩
    else some below
  else if above.toNumber = number then some above
  else none

/-- The shortest decimal that reads back as the finite double with the given number. -/
def shortest (number : Nat) : Decimal :=
  let exact := toDecimal number
  let size := digitCount exact.digits
  ((List.range 17).findSome? fun i ↦ candidate number exact size (i + 1)).getD exact

end ExprSampler.Binary64
