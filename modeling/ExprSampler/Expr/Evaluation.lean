import ExprSampler.Expr.Node
import ExprSampler.Expr.Power

/-!
# Evaluation

A tree is evaluated by any arithmetic: at one point by the arithmetic of doubles, at many points by
that of columns, which keeps a value that is the same at every point single until it meets a column.
Evaluation never fails; division by zero, overflow and roots of negative numbers give infinities or
values that are no number.
-/

namespace ExprSampler

/-- The operations an expression is evaluated by. -/
structure Arithmetic (α : Type) where
  ofFloat : Float → α
  neg : α → α
  add : α → α → α
  sub : α → α → α
  mul : α → α → α
  div : α → α → α
  pow : α → α → α

namespace Arithmetic

variable {α : Type}

/-- A further term joins a sum. -/
def addend (A : Arithmetic α) (total : α) : AddOp → α → α
  | .plus, term => A.add total term
  | .minus, term => A.sub total term

/-- A further factor joins a product. -/
def multiplicand (A : Arithmetic α) (result : α) : MulOp → α → α
  | .times, factor => A.mul result factor
  | .over, factor => A.div result factor

/-- Arithmetic at one point, where every exponent is a single value. -/
def atPoint : Arithmetic Float where
  ofFloat v := v
  neg v := -v
  add v w := v + w
  sub v w := v - w
  mul v w := v * w
  div v w := v / w
  pow := Binary64.powerBySingle

end Arithmetic

/-! ## Columns -/

/-- Values at a list of points: one that holds at all of them, or one for each. -/
inductive Column
  | single (value : Float)
  | each (values : List Float)

namespace Column

/-- Applies an operation to every value. -/
def map (f : Float → Float) : Column → Column
  | single v => single (f v)
  | each vs => each (vs.map f)

/-- Applies an operation point by point, a single value taking part at every point. -/
def zip (f : Float → Float → Float) : Column → Column → Column
  | single v, single w => single (f v w)
  | single v, each ws => each (ws.map (f v))
  | each vs, single w => each (vs.map (f · w))
  | each vs, each ws => each (List.zipWith f vs ws)

/-- Raises to a power point by point. Only an exponent that is single is treated as such. -/
def pow (b e : Column) : Column :=
  match e with
  | single e => b.map (Binary64.powerBySingle · e)
  | each es => zip Binary64.power b (each es)

/-- The values at `count` points. -/
def spread (count : Nat) : Column → List Float
  | single v => List.replicate count v
  | each vs => vs

end Column

/-- Arithmetic at many points. -/
def Arithmetic.onColumns : Arithmetic Column where
  ofFloat := .single
  neg := .map fun v ↦ -v
  add := .zip fun v w ↦ v + w
  sub := .zip fun v w ↦ v - w
  mul := .zip fun v w ↦ v * w
  div := .zip fun v w ↦ v / w
  pow := .pow

/-! ## Trees -/

namespace Node

variable {α : Type}

mutual

/-- The value of a tree where the variable is `x`. -/
def evalBy (A : Arithmetic α) (x : α) : Node → α
  | .number v => A.ofFloat v
  | .var => x
  | .power base none => evalBy A x base
  | .power base (some exponent) => A.pow (evalBy A x base) (evalBy A x exponent)
  | .signed negate inner => if negate then A.neg (evalBy A x inner) else evalBy A x inner
  | .product first rest => productBy A x (evalBy A x first) rest
  | .sum first rest => sumBy A x (evalBy A x first) rest

/-- A product going on with the given factors. -/
def productBy (A : Arithmetic α) (x : α) (result : α) : List (MulOp × Node) → α
  | [] => result
  | (op, factor) :: rest => productBy A x (A.multiplicand result op (evalBy A x factor)) rest

/-- A sum going on with the given terms. -/
def sumBy (A : Arithmetic α) (x : α) (total : α) : List (AddOp × Node) → α
  | [] => total
  | (op, term) :: rest => sumBy A x (A.addend total op (evalBy A x term)) rest

end

/-- The value at one point. -/
def eval (node : Node) (x : Float) : Float :=
  node.evalBy .atPoint x

end Node

/-! ## Grids of points -/

/-- Points nested to any depth. -/
inductive Grid
  | point (x : Float)
  | row (cells : List Grid)

namespace Grid

mutual

/-- The points in order. -/
def points : Grid → List Float
  | point x => [x]
  | row cells => pointsOfCells cells

/-- The points of several grids in order. -/
def pointsOfCells : List Grid → List Float
  | [] => []
  | cell :: cells => points cell ++ pointsOfCells cells

end

mutual

/-- The lengths of the rows from the outermost level inwards; nothing if rows of one level
differ. -/
def shape? : Grid → Option (List Nat)
  | point _ => some []
  | row [] => some [0]
  | row (cell :: cells) =>
    match shape? cell with
    | none => none
    | some shape => if shapedLike shape cells then some ((cells.length + 1) :: shape) else none

/-- Whether all of the grids have the given shape. -/
def shapedLike (shape : List Nat) : List Grid → Bool
  | [] => true
  | cell :: cells => shape? cell == some shape && shapedLike shape cells

end

mutual

/-- The same grid with other values in place of its points, in order, and the values left over. A
point for which there is no value keeps its own. -/
def refill (vs : List Float) : Grid → Grid × List Float
  | point x => match vs with
    | [] => (point x, [])
    | v :: vs => (point v, vs)
  | row cells =>
    let (cells, vs) := refillCells vs cells
    (row cells, vs)

/-- Several grids with other values in place of their points. -/
def refillCells (vs : List Float) : List Grid → List Grid × List Float
  | [] => ([], vs)
  | cell :: cells =>
    let (cell, vs) := refill vs cell
    let (cells, vs) := refillCells vs cells
    (cell :: cells, vs)

end

/-- What the variable stands for at all points of the grid: a lone point is a single value. -/
def column : Grid → Column
  | point x => .single x
  | row cells => .each (pointsOfCells cells)

end Grid

/-- The values at all points of a grid, in its shape; nothing if the grid has none. -/
def Node.evalGrid (node : Node) (xs : Grid) : Option Grid :=
  match xs.shape? with
  | none => none
  | some _ =>
    let values := (node.evalBy .onColumns xs.column).spread xs.points.length
    some (xs.refill values).1

/-- The values at a list of points. -/
def Node.evalList (node : Node) (xs : List Float) : List Float :=
  (node.evalBy .onColumns (.each xs)).spread xs.length

end ExprSampler
