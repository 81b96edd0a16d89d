import ExprSampler.Decimal.Layout
import ExprSampler.Expr.Node
import ExprSampler.Expr.ParseError

/-!
# The grammar

```text
sum      := term (('+' | '-') term)*
term     := factor ('*' factor | factor beginning with '(' or a letter | '/' factor)*
factor   := '-'* base
base     := primary ('^' factor)?
primary  := letter | number | '(' sum ')'
number   := digit+ ('.' digit+)?
```

Every choice is made on the next character alone. The first letter read is bound to the variable,
and every later one must be the same.

Each rule takes the number of rule calls that may still nest inside it, which is what the recursion
is on. A text never needs more than `nestingBound` of them: a group goes through five rules before
it is back at a sum, an exponent through two before it is back at a factor.
-/

namespace ExprSampler

namespace Grammar

open ExprSampler.Parser

/-- One more term and how it joins the sum; nothing where no sign follows. -/
def addend (term : Parser Node) : Parser (Option (AddOp × Node)) := do
  if ← skip? .plus then
    let t ← term
    pure (some (.plus, t))
  else if ← skip? .minus then
    let t ← term
    pure (some (.minus, t))
  else
    pure none

/-- Whether a multiplication follows. Its sign may be left out before a group or a letter. -/
def multiplies : Parser Bool := do
  if ← skip? .times then
    pure true
  else
    nextIs [.openParen, .letter]

/-- One more factor and how it joins the product; nothing where neither operation follows. -/
def multiplicand (factor : Parser Node) : Parser (Option (MulOp × Node)) := do
  if ← multiplies then
    let f ← factor
    pure (some (.times, f))
  else if ← skip? .divide then
    let f ← factor
    pure (some (.over, f))
  else
    pure none

/-- The letter of the variable: any letter the first time, the same one from then on. -/
def letterOfVariable : Parser Node := do
  match ← getName with
  | none =>
    let letter ← require .letter "variable"
    bindName (String.singleton letter)
    pure .var
  | some name =>
    requireSkip (.literal name) "variable"
    pure .var

/-- One or more digits. -/
def digits : Parser (List Char) := do
  let first ← require .digit "number"
  let more ← takeAll .digit
  pure (first :: more)

/-- Digits, and digits behind a point if there is one; the value is the nearest double. -/
def numeral : Parser Node := do
  let whole ← digits
  if ← skip? .decimalPoint then
    let fraction ← digits
    pure (.number (Decimal.ofPlaces whole fraction).toFloat)
  else
    pure (.number (Decimal.ofPlaces whole []).toFloat)

/-- A rule without rules inside it, under a nesting limit. -/
def leaf (p : Parser Node) : Nat → Parser Node
  | 0 => tooDeep
  | _ + 1 => p

mutual

/-- The rule for sums, under a nesting limit. -/
def sum : Nat → Parser Node
  | 0 => tooDeep
  | n + 1 => do
    let first ← term n
    let rest ← many (addend (term n))
    pure (.sum first rest)

/-- The rule for products, under a nesting limit. -/
def term : Nat → Parser Node
  | 0 => tooDeep
  | n + 1 => do
    let first ← factor n
    let rest ← many (multiplicand (factor n))
    pure (.product first rest)

/-- The rule for signed operands, under a nesting limit. -/
def factor : Nat → Parser Node
  | 0 => tooDeep
  | n + 1 => do
    let signs ← takeAll .minus
    let inner ← base n
    pure (.signed (signs.length % 2 == 1) inner)

/-- The rule for powers, under a nesting limit. -/
def base : Nat → Parser Node
  | 0 => tooDeep
  | n + 1 => do
    let operand ← primary n
    if ← skip? .caret then
      let exponent ← factor n
      pure (.power operand (some exponent))
    else
      pure (.power operand none)

/-- The rule for variables, numbers and groups, under a nesting limit. -/
def primary : Nat → Parser Node
  | 0 => tooDeep
  | n + 1 => do
    if ← nextIs [.letter] then
      leaf letterOfVariable n
    else if ← nextIs [.digit] then
      leaf numeral n
    else
      requireSkip .openParen "primary"
      let inner ← sum n
      requireSkip .closeParen "primary"
      pure inner

end

/-- A sum that is the whole text. -/
def whole (limit : Nat) : Parser Node := do
  let root ← sum limit
  requireEnd "expression"
  pure root

/-- How deeply the rules nest at most on a text: groups and exponents are what nests. -/
def nestingBound (text : List Char) : Nat :=
  5 * text.count '(' + 2 * text.count '^' + 6

end Grammar

/-! ## Parsing texts -/

/-- The tree of a text, and the name bound to the variable after reading it, when rules may nest
only `limit` deep. -/
def parseWithin (limit : Nat) (bound : Option String) (text : String) :
    Except ParseError Node × Option String :=
  match Grammar.whole limit bound (Cursor.seek text.toList 0) with
  | (.done root _ _, bound) => (.ok root, bound)
  | (.failed blame, bound) => (.error (.ofBlame text blame), bound)
  | (.tooDeep, bound) => (.error (.ofTooDeep text), bound)

/-- The tree of a text without blanks, and the name bound to the variable after reading it. -/
def parseTree (bound : Option String) (text : String) : Except ParseError Node × Option String :=
  parseWithin (Grammar.nestingBound text.toList) bound text

end ExprSampler
