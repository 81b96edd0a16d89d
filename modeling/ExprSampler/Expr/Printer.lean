import ExprSampler.Decimal.Layout
import ExprSampler.Expr.Node

/-!
# The canonical text of a tree

The canonical text writes every multiplication sign and keeps every group, so that reading it gives
the tree back. Numbers are positional, for the grammar has no exponents.
-/

namespace ExprSampler

/-- The name shown for the variable where none is bound. -/
def shownName : Option String → String
  | none => "x"
  | some name => if name = "" then "x" else name

/-- The sign that joins a term to a sum. -/
def AddOp.sign : AddOp → Char
  | .plus => '+'
  | .minus => '-'

/-- The sign that joins a factor to a product. -/
def MulOp.sign : MulOp → Char
  | .times => '*'
  | .over => '/'

namespace Node

/-- Digits for a number beyond every finite double; they are read as infinity. -/
def overflowDigits : List Char :=
  '1' :: List.replicate 309 '0'

/-- A number as the grammar writes it. -/
def numberChars (v : Float) : List Char :=
  if v.isInf then overflowDigits else Binary64.positionalText v

/-- The text of a base: a sum stands in parentheses. -/
def asBase (base : Node) (cs : List Char) : List Char :=
  if base.isSum then '(' :: cs ++ [')'] else cs

mutual

/-- The canonical text, the variable being written as `name`. -/
def chars (name : List Char) : Node → List Char
  | .number v => numberChars v
  | .var => name
  | .power base none => asBase base (chars name base)
  | .power base (some exponent) => asBase base (chars name base) ++ '^' :: chars name exponent
  | .signed negate inner => if negate then '-' :: chars name inner else chars name inner
  | .product first rest => chars name first ++ factorsChars name rest
  | .sum first rest => chars name first ++ termsChars name rest

/-- The canonical text of the factors after the first. -/
def factorsChars (name : List Char) : List (MulOp × Node) → List Char
  | [] => []
  | (op, factor) :: rest => op.sign :: chars name factor ++ factorsChars name rest

/-- The canonical text of the terms after the first. -/
def termsChars (name : List Char) : List (AddOp × Node) → List Char
  | [] => []
  | (op, term) :: rest => op.sign :: chars name term ++ termsChars name rest

end

/-- The canonical text, for the name bound to the variable. -/
def canonical (bound : Option String) (node : Node) : String :=
  String.ofList (node.chars (shownName bound).toList)

end Node

end ExprSampler
