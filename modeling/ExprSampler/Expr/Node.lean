/-!
# Expression trees

A tree keeps every level of the grammar, also where a level adds nothing: a lone number is a sum of
one product of one signed power. The types admit more trees than the grammar does, since any node
may stand at any place; printing, evaluation and display are defined for all of them.
-/

namespace ExprSampler

/-- How a term joins a sum. -/
inductive AddOp
  | plus
  | minus
deriving DecidableEq, Repr

/-- How a factor joins a product. -/
inductive MulOp
  | times
  | over
deriving DecidableEq, Repr

/-- An expression in one variable. -/
inductive Node
  /-- A number as written. -/
  | number (value : Float)
  /-- The variable. -/
  | var
  /-- A base and the exponent it is raised to, if any. -/
  | power (base : Node) (exponent : Option Node)
  /-- An operand behind a run of minus signs, of which only the parity counts. -/
  | signed (negate : Bool) (inner : Node)
  /-- Factors taken from left to right. -/
  | product (first : Node) (rest : List (MulOp × Node))
  /-- Terms taken from left to right. -/
  | sum (first : Node) (rest : List (AddOp × Node))
deriving Repr

namespace Node

/-- A node stands in parentheses as a base exactly if it is a sum. -/
def isSum : Node → Bool
  | .sum _ _ => true
  | _ => false

end Node

end ExprSampler
