import ExprSampler.Proofs.Evaluation.Grids

/-!
# Values of constants

A tree without the variable has one value, whatever it is evaluated at. A lone point is evaluated as
what it is, a single value, and rows of points are filled with the value of the constant; so any
grid is, in its own shape.
-/

namespace ExprSampler

namespace Node

/-! ## A lone point -/

mutual

/-- Where the variable is single, everything is, and every exponent is treated as such. -/
theorem evalBy_onColumns_single (x : Float) (node : Node) :
    node.evalBy .onColumns (.single x) = .single (node.evalBy .atPoint x) := by
  match node with
  | .number v =>
    rw [evalBy, evalBy]
    rfl
  | .var => rw [evalBy, evalBy]
  | .power base none =>
    rw [evalBy, evalBy]
    exact evalBy_onColumns_single x base
  | .power base (some exponent) =>
    rw [evalBy, evalBy, evalBy_onColumns_single x base, evalBy_onColumns_single x exponent]
    rfl
  | .signed negate inner =>
    rw [evalBy, evalBy, evalBy_onColumns_single x inner]
    cases negate <;> rfl
  | .product first rest =>
    rw [evalBy, evalBy, evalBy_onColumns_single x first]
    exact productBy_onColumns_single x _ rest
  | .sum first rest =>
    rw [evalBy, evalBy, evalBy_onColumns_single x first]
    exact sumBy_onColumns_single x _ rest

theorem productBy_onColumns_single (x result : Float) (rest : List (MulOp × Node)) :
    productBy .onColumns (.single x) (.single result) rest
      = .single (productBy .atPoint x result rest) := by
  match rest with
  | [] => rw [productBy, productBy]
  | (op, factor) :: rest =>
    rw [productBy, productBy, evalBy_onColumns_single x factor]
    rcases op with _ | _
    · exact productBy_onColumns_single x _ rest
    · exact productBy_onColumns_single x _ rest

theorem sumBy_onColumns_single (x total : Float) (rest : List (AddOp × Node)) :
    sumBy .onColumns (.single x) (.single total) rest
      = .single (sumBy .atPoint x total rest) := by
  match rest with
  | [] => rw [sumBy, sumBy]
  | (op, term) :: rest =>
    rw [sumBy, sumBy, evalBy_onColumns_single x term]
    rcases op with _ | _
    · exact sumBy_onColumns_single x _ rest
    · exact sumBy_onColumns_single x _ rest

end

theorem evalGrid_point (x : Float) (node : Node) :
    node.evalGrid (.point x) = some (.point (node.eval x)) := by
  have hvalue : node.evalBy .onColumns (Grid.point x).column = .single (node.eval x) :=
    evalBy_onColumns_single x node
  rw [evalGrid, Grid.shape?, hvalue]
  rfl

/-! ## Constants -/

variable {node : Node}

theorem eval_of_const (h : node.hasVar = false) (x x' : Float) : node.eval x = node.eval x' :=
  (evalEach_of_const h x x).symm.trans (evalEach_of_const h x x')

theorem evalList_of_const (h : node.hasVar = false) (x : Float) (xs : List Float) :
    node.evalList xs = List.replicate xs.length (node.eval x) := by
  rw [evalList_eq_map, funext fun x' ↦ evalEach_of_const h x' x, List.map_const']

/-- A constant takes its value at every point of a grid of any shape. -/
theorem evalGrid_of_const (h : node.hasVar = false) {xs : Grid} {shape : List Nat}
    (hshape : xs.shape? = some shape) (x : Float) :
    node.evalGrid xs = some (xs.map fun _ ↦ node.eval x) := by
  cases xs with
  | point x' => rw [evalGrid_point, Grid.map, eval_of_const h x' x]
  | row cells =>
    rw [evalGrid_row hshape, funext fun x' ↦ evalEach_of_const h x' x]

end Node

end ExprSampler
