import ExprSampler.Decimal.Binary64
import ExprSampler.Text.Blank
import ExprSampler.Text.Digit

/-!
# Reading numbers

The numbers of the command line are read generously: blanks may stand around them, digits may belong
to any script and may be set apart by single underscores. A double may be written with a point, with
an exponent or both, or be one of the words for infinity and for no number; an integer is only
digits, and not more than 4300 of them.
-/

namespace ExprSampler

/-! ## Preparing the text -/

/-- The blanks that may surround a number, as they stand after `toAscii`. -/
def isMargin (c : Char) : Bool :=
  c == ' ' || (decide ('\t' ≤ c) && decide (c ≤ '\r'))

/-- A character of ASCII as it is; of the others, blanks as spaces, digits as those of ASCII, and
the rest as a character that no number has. -/
def toAscii (c : Char) : Char :=
  if c.toNat < 127 then c
  else if Text.isBlank c then ' '
  else match Text.digitValue? c with
    | some d => Char.ofNat ('0'.toNat + d)
    | none => '?'

/-- The text without underscores, each of which must stand between two digits. -/
def joinDigits? (afterDigit : Bool) : List Char → Option (List Char)
  | [] => some []
  | '_' :: c :: cs => if afterDigit && c.isDigit then joinDigits? false (c :: cs) else none
  | c :: cs => if c == '_' then none else (joinDigits? c.isDigit cs).map (c :: ·)

/-- The characters of a number without margins and underscores. -/
def numberChars? (s : String) : Option (List Char) :=
  joinDigits? false (Text.trimWith isMargin (String.ofList (s.toList.map toAscii))).toList

/-- Splits off a sign; `true` is a minus. -/
def splitSign : List Char → Bool × List Char
  | '-' :: cs => (true, cs)
  | '+' :: cs => (false, cs)
  | cs => (false, cs)

/-! ## Integers -/

/-- The most digits an integer may be written with. -/
def maxIntDigits : Nat := 4300

/-- The integer that digits behind an optional sign denote. -/
def intOfChars? (cs : List Char) : Option Int :=
  let (negative, digits) := splitSign cs
  if digits.isEmpty || !digits.all Char.isDigit || decide (maxIntDigits < digits.length) then none
  else some (if negative then -(natOfDigits digits : Int) else natOfDigits digits)

/-- The integer a text denotes. -/
def readInt? (s : String) : Option Int := do
  intOfChars? (← numberChars? s)

/-! ## Doubles -/

/-- The exponent at the end of a number: nothing, or `e` and a signed integer. -/
def exponentOfChars? : List Char → Option Int
  | [] => some 0
  | c :: cs =>
    let (negative, digits) := splitSign cs
    if (c == 'e' || c == 'E') && !digits.isEmpty && digits.all Char.isDigit then
      some (if negative then -(natOfDigits digits : Int) else natOfDigits digits)
    else none

/-- The digits behind the point, if there is a point, and what follows them. -/
def splitFraction : List Char → List Char × List Char
  | '.' :: cs => (cs.takeWhile Char.isDigit, cs.dropWhile Char.isDigit)
  | cs => ([], cs)

/-- The decimal that digits denote: some before or behind a point, and an exponent or none. -/
def decimalOfChars? (cs : List Char) : Option Decimal := do
  let whole := cs.takeWhile Char.isDigit
  let (fraction, rest) := splitFraction (cs.dropWhile Char.isDigit)
  let exponent ← exponentOfChars? rest
  if whole.isEmpty && fraction.isEmpty then none
  else
    let d := Decimal.ofPlaces whole fraction
    some { d with exponent := d.exponent + exponent }

/-- The words for infinity and for no number, in any case. -/
def floatWord? (cs : List Char) : Option Float :=
  let word := String.ofList (cs.map Char.toLower)
  if word = "inf" ∨ word = "infinity" then some (1.0 / 0.0)
  else if word = "nan" then some (0.0 / 0.0)
  else none

/-- The double that an optional sign and a word or decimal denote. -/
def floatOfChars? (cs : List Char) : Option Float :=
  let (negative, cs) := splitSign cs
  match floatWord? cs with
  | some v => some (if negative then -v else v)
  | none => (decimalOfChars? cs).map (Decimal.toSignedFloat negative)

/-- The double a text denotes. -/
def readFloat? (s : String) : Option Float := do
  floatOfChars? (← numberChars? s)

end ExprSampler
