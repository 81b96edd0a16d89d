import ExprSampler.Expr.Evaluation
import ExprSampler.Expr.Grammar
import ExprSampler.Expr.Printer

/-!
# Expressions

An expression is what reading a text gives: the tree, the name its variable goes by, and the text
without blanks.
-/

namespace ExprSampler

/-- An expression in at most one variable. -/
structure Expression where
  root : Node
  /-- The name of the variable; a constant has none. -/
  input : Option String
  /-- The text without blanks. -/
  source : String

namespace Expression

/-- Reads a text whose rules may nest only `limit` deep. -/
def parseWithin (limit : Nat) (text : String) : Except ParseError Expression :=
  let source := Text.stripBlanks text
  match ExprSampler.parseWithin limit none source with
  | (.ok root, input) => .ok ⟨root, input, source⟩
  | (.error e, _) => .error e

/-- Reads a text; blanks count nowhere. -/
def parse (text : String) : Except ParseError Expression :=
  parseWithin (Grammar.nestingBound (Text.stripBlanks text).toList) text

/-- The value at one point. -/
def eval (e : Expression) (x : Float) : Float :=
  e.root.eval x

/-- The values at a list of points. -/
def evalList (e : Expression) (xs : List Float) : List Float :=
  e.root.evalList xs

/-- The canonical text. -/
def canonical (e : Expression) : String :=
  e.root.canonical e.input

end Expression

end ExprSampler
