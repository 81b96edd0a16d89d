import ExprSampler.Expr.Printer
import ExprSampler.Output.Markup

/-!
# Outlines of trees

The display of an expression tree: every node has a label, and its operands hang below it. An
operand after the first is marked by the operation that joins it. Numbers and the variable are the
parts of a label that have a style.
-/

namespace ExprSampler

/-- A label: plain words, and what is named by them in a style. -/
structure Label where
  words : String
  /-- The style and the text in it; empty if only words are shown. -/
  named : Option (String × String)
deriving DecidableEq, Repr

namespace Label

/-- A label of words alone. -/
def plain (words : String) : Label := ⟨words, none⟩

/-- The label behind a mark. -/
def marked (mark : String) (l : Label) : Label := ⟨mark ++ l.words, l.named⟩

/-- The label as it is read. -/
def text (l : Label) : String :=
  l.words ++ (l.named.map (·.2)).getD ""

/-- The label as markup. -/
def markup (enabled : Bool) (l : Label) : String :=
  l.words ++ (l.named.map fun n ↦ Markup.colorize enabled n.1 n.2).getD ""

end Label

/-- A tree of labels. -/
inductive Outline
  | entry (label : Label) (children : List Outline)
deriving Repr

namespace Node

/-- The label of a node. -/
def label (name : String) : Node → Label
  | .number v => ⟨"Number ", some (Markup.numberStyle, Binary64.exactText v)⟩
  | .var => ⟨"Variable ", some (Markup.variableStyle, name)⟩
  | .power _ none => .plain "Power (no exponent)"
  | .power _ (some _) => .plain "Power"
  | .signed negate _ => .plain (if negate then "UnaryChain (negate)" else "UnaryChain")
  | .product _ _ => .plain "Product"
  | .sum _ _ => .plain "Sum"

mutual

/-- The outline of a node, marked by the operation that joins it to its parent. -/
def outlineFrom (name mark : String) : Node → Outline
  | node@(.number _) => .entry ((node.label name).marked mark) []
  | node@(.var) => .entry ((node.label name).marked mark) []
  | node@(.power base none) => .entry ((node.label name).marked mark) [outlineFrom name "" base]
  | node@(.power base (some exponent)) =>
    .entry ((node.label name).marked mark)
      [outlineFrom name "" base, outlineFrom name "^ " exponent]
  | node@(.signed _ inner) => .entry ((node.label name).marked mark) [outlineFrom name "" inner]
  | node@(.product first rest) =>
    .entry ((node.label name).marked mark) (outlineFrom name "" first :: outlineFactors name rest)
  | node@(.sum first rest) =>
    .entry ((node.label name).marked mark) (outlineFrom name "" first :: outlineTerms name rest)

/-- The outlines of the factors after the first. -/
def outlineFactors (name : String) : List (MulOp × Node) → List Outline
  | [] => []
  | (op, factor) :: rest =>
    outlineFrom name (String.ofList [op.sign, ' ']) factor :: outlineFactors name rest

/-- The outlines of the terms after the first. -/
def outlineTerms (name : String) : List (AddOp × Node) → List Outline
  | [] => []
  | (op, term) :: rest =>
    outlineFrom name (String.ofList [op.sign, ' ']) term :: outlineTerms name rest

end

/-- The outline of a tree, for the name bound to the variable. -/
def outline (bound : Option String) (node : Node) : Outline :=
  node.outlineFrom (shownName bound) ""

end Node

end ExprSampler
