import ExprSampler.Decimal.Shortest

/-!
# Written forms of doubles

Three forms are in use. The *exact form* is the shortest text that reads back, written positionally
for everyday sizes and with an exponent beyond them; the *positional form* has the same digits and
never an exponent, because expressions have no notation for one; the *rounded form* has a chosen
number of significant digits. All three are one layout of digits under different styles.
-/

namespace ExprSampler

/-- How digits are laid out. -/
structure NumberStyle where
  /-- The exponents of the leading digit that are written positionally. -/
  positional : Int → Bool
  /-- What follows a whole number written positionally. -/
  wholeEnd : List Char

namespace NumberStyle

/-- The exact form: positional from `0.0001` to below `10 ^ 16`, whole numbers marked by `.0`. -/
def exactForm : NumberStyle :=
  ⟨fun e ↦ decide (-4 ≤ e) && decide (e < 16), ['.', '0']⟩

/-- The positional form: never an exponent, whole numbers unmarked. -/
def positionalForm : NumberStyle :=
  ⟨fun _ ↦ true, []⟩

/-- The rounded form of `count` significant digits: positional while that many digits reach the
units. -/
def roundedForm (count : Nat) : NumberStyle :=
  ⟨fun e ↦ decide (-4 ≤ e) && decide (e < count), []⟩

/-- Digits with the point after the `e + 1`st. -/
def layPositional (style : NumberStyle) (digits : List Char) (e : Int) : List Char :=
  if e < 0 then
    '0' :: '.' :: List.replicate (-e - 1).toNat '0' ++ digits
  else
    let whole := e.toNat + 1
    if digits.length ≤ whole then
      digits ++ List.replicate (whole - digits.length) '0' ++ style.wholeEnd
    else
      digits.take whole ++ '.' :: digits.drop whole

/-- An exponent: its sign and at least two digits. -/
def layExponent (e : Int) : List Char :=
  let digits := digitsOf e.natAbs
  'e' :: (if e < 0 then '-' else '+') :: List.replicate (2 - digits.length) '0' ++ digits

/-- Digits with the point after the first, and the exponent. -/
def layScientific (digits : List Char) (e : Int) : List Char :=
  match digits with
  | [] => []
  | [d] => d :: layExponent e
  | d :: more => d :: '.' :: more ++ layExponent e

/-- A decimal in the given style; the zeros that end its digits are not written. -/
def lay (style : NumberStyle) (d : Decimal) : List Char :=
  if d.digits = 0 then '0' :: style.wholeEnd
  else if style.positional d.magnitude then style.layPositional d.significant d.magnitude
  else layScientific d.significant d.magnitude

end NumberStyle

namespace Binary64

/-- A finite double in the given style, its decimal chosen by `digits`. -/
def writeFinite (style : NumberStyle) (digits : Nat → Decimal) (v : Float) : List Char :=
  let text := style.lay (digits (number v))
  if isNegative v then '-' :: text else text

/-- A double with the words `nan`, `inf` and `-inf` for those that are no finite number. -/
def write (style : NumberStyle) (digits : Nat → Decimal) (v : Float) : List Char :=
  if v.isNaN then ['n', 'a', 'n']
  else if v.isInf then
    if isNegative v then ['-', 'i', 'n', 'f'] else ['i', 'n', 'f']
  else writeFinite style digits v

/-- The exact form. -/
def exactText (v : Float) : String :=
  String.ofList (write .exactForm shortest v)

/-- The positional form. -/
def positionalText (v : Float) : List Char :=
  write .positionalForm shortest v

/-- The most digits that can tell two decimals of doubles apart: no exact decimal has more. -/
def maxDigits : Nat := 800

/-- The rounded form of `count` significant digits, at least one. -/
def roundedText (count : Nat) (v : Float) : String :=
  let count := max 1 count
  String.ofList (write (.roundedForm count) (fun n ↦ (toDecimal n).roundTo (min count maxDigits)) v)

end Binary64

end ExprSampler
