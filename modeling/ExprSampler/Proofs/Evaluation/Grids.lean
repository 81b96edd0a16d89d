import ExprSampler.Proofs.Evaluation.PowersInTrees

/-!
# Evaluation on grids

Points may be nested in rows to any depth, as long as the rows of one level are alike. Evaluation
lays them out in one list, evaluates there and puts the values back in the same order; so it only
replaces every point by the value there, whatever the shape. What a value is depends neither on its
neighbours nor on its place, and grids may be cut or reshaped before or after.
-/

namespace ExprSampler

namespace Grid

/-! ## Places in a grid -/

/-- The point to which a path of positions leads, one position for each level. -/
def at? : List Nat → Grid → Option Float
  | [], point x => some x
  | i :: path, row cells => cells[i]?.bind (at? path)
  | _, _ => none

mutual

/-- The same grid with every point replaced. -/
def map (f : Float → Float) : Grid → Grid
  | point x => point (f x)
  | row cells => row (mapCells f cells)

/-- The same grids with every point replaced. -/
def mapCells (f : Float → Float) : List Grid → List Grid
  | [] => []
  | cell :: cells => map f cell :: mapCells f cells

end

theorem mapCells_eq_map (f : Float → Float) (cells : List Grid) :
    mapCells f cells = cells.map (map f) := by
  induction cells with
  | nil => rw [mapCells, List.map_nil]
  | cons cell cells ih => rw [mapCells, ih, List.map_cons]

theorem map_row (f : Float → Float) (cells : List Grid) :
    (row cells).map f = row (cells.map (map f)) := by
  rw [map, mapCells_eq_map]

theorem at?_map (f : Float → Float) (path : List Nat) (xs : Grid) :
    (xs.map f).at? path = (xs.at? path).map f := by
  induction path generalizing xs with
  | nil =>
    cases xs with
    | point x => rw [map]; rfl
    | row cells => rw [map_row]; rfl
  | cons i path ih =>
    cases xs with
    | point x => rw [map]; rfl
    | row cells =>
      rw [map_row, at?, at?, List.getElem?_map]
      cases cells[i]? with
      | none => rfl
      | some cell => exact ih cell

/-! ## Shapes -/

theorem shapedLike_iff {shape : List Nat} {cells : List Grid} :
    shapedLike shape cells = true ↔ ∀ cell ∈ cells, cell.shape? = some shape := by
  induction cells with
  | nil => simp [shapedLike]
  | cons cell cells ih => simp [shapedLike, ih]

/-- The cells of a row are all of one shape. -/
theorem shape?_row_cons_iff {cell : Grid} {cells : List Grid} {shape : List Nat} :
    (row (cell :: cells)).shape? = some shape ↔ ∃ inner : List Nat,
      shape = (cells.length + 1) :: inner ∧ ∀ c ∈ cell :: cells, c.shape? = some inner := by
  rw [shape?]
  cases hcell : cell.shape? with
  | none => simp [hcell]
  | some inner =>
    simp only [Option.ite_none_right_eq_some, Option.some_inj, List.forall_mem_cons, hcell,
      shapedLike_iff]
    constructor
    · rintro ⟨hlike, rfl⟩
      exact ⟨inner, rfl, rfl, hlike⟩
    · rintro ⟨inner, rfl, rfl, hlike⟩
      exact ⟨hlike, rfl⟩

mutual

theorem shape?_map (f : Float → Float) (xs : Grid) : (xs.map f).shape? = xs.shape? := by
  match xs with
  | point x => rw [map, shape?, shape?]
  | row [] => rw [map, mapCells]
  | row (cell :: cells) =>
    have hlength : (mapCells f cells).length = cells.length := by
      rw [mapCells_eq_map, List.length_map]
    rw [map, mapCells, shape?, shape?, shape?_map f cell, hlength]
    cases cell.shape? with
    | none => rfl
    | some shape =>
      dsimp only
      rw [shapedLike_mapCells f shape cells]

theorem shapedLike_mapCells (f : Float → Float) (shape : List Nat) (cells : List Grid) :
    shapedLike shape (mapCells f cells) = shapedLike shape cells := by
  match cells with
  | [] => rw [mapCells]
  | cell :: cells =>
    rw [mapCells, shapedLike, shapedLike, shape?_map f cell, shapedLike_mapCells f shape cells]

end

theorem exists_shape?_of_subset {cells cells' : List Grid} {shape : List Nat}
    (h : (row cells).shape? = some shape) (hsub : cells' ⊆ cells) :
    ∃ shape' : List Nat, (row cells').shape? = some shape' := by
  cases cells' with
  | nil => exact ⟨[0], rfl⟩
  | cons cell' cells' =>
    cases cells with
    | nil => exact absurd (hsub List.mem_cons_self) List.not_mem_nil
    | cons cell cells =>
      obtain ⟨inner, -, hall⟩ := shape?_row_cons_iff.mp h
      exact ⟨_, shape?_row_cons_iff.mpr ⟨inner, rfl, fun c hc ↦ hall c (hsub hc)⟩⟩

/-- The paths that lead to a point are those within the shape. -/
theorem exists_at?_iff {path shape : List Nat} {xs : Grid} (h : xs.shape? = some shape) :
    (∃ x : Float, xs.at? path = some x) ↔ List.Forall₂ (· < ·) path shape := by
  induction path generalizing xs shape with
  | nil =>
    cases xs with
    | point x =>
      obtain rfl : [] = shape := by simpa [shape?] using h
      exact ⟨fun _ ↦ .nil, fun _ ↦ ⟨x, rfl⟩⟩
    | row cells =>
      cases cells with
      | nil =>
        obtain rfl : [0] = shape := by simpa [shape?] using h
        exact ⟨nofun, nofun⟩
      | cons cell cells =>
        obtain ⟨inner, rfl, -⟩ := shape?_row_cons_iff.mp h
        exact ⟨nofun, nofun⟩
  | cons i path ih =>
    cases xs with
    | point x =>
      obtain rfl : [] = shape := by simpa [shape?] using h
      exact ⟨nofun, nofun⟩
    | row cells =>
      cases cells with
      | nil =>
        obtain rfl : [0] = shape := by simpa [shape?] using h
        exact ⟨nofun, fun hpath ↦ absurd (List.forall₂_cons.mp hpath).1 (Nat.not_lt_zero i)⟩
      | cons cell cells =>
        obtain ⟨inner, rfl, hall⟩ := shape?_row_cons_iff.mp h
        rw [List.forall₂_cons, at?]
        by_cases hi : i < cells.length + 1
        · have hget : (cell :: cells)[i]? = some (cell :: cells)[i] := List.getElem?_eq_getElem hi
          rw [hget, Option.bind_some, ih (hall _ (List.getElem_mem hi))]
          exact (and_iff_right hi).symm
        · rw [List.getElem?_eq_none (Nat.le_of_not_lt hi)]
          exact ⟨nofun, fun hpath ↦ absurd hpath.1 hi⟩

/-! ## Laying out and putting back -/

mutual

theorem points_map (f : Float → Float) (xs : Grid) : (xs.map f).points = xs.points.map f := by
  match xs with
  | point x => rw [map, points, points, List.map_singleton]
  | row cells => rw [map, points, points, pointsOfCells_mapCells f cells]

theorem pointsOfCells_mapCells (f : Float → Float) (cells : List Grid) :
    pointsOfCells (mapCells f cells) = (pointsOfCells cells).map f := by
  match cells with
  | [] => rw [mapCells, pointsOfCells, List.map_nil]
  | cell :: cells =>
    rw [mapCells, pointsOfCells, pointsOfCells, List.map_append, points_map f cell,
      pointsOfCells_mapCells f cells]

end

mutual

/-- Putting back what was computed from the points replaces each of them. -/
theorem refill_map_points (f : Float → Float) (vs : List Float) (xs : Grid) :
    xs.refill (xs.points.map f ++ vs) = (xs.map f, vs) := by
  match xs with
  | point x =>
    rw [points, map]
    rfl
  | row cells => rw [points, map, refill, refillCells_map_points f vs cells]

theorem refillCells_map_points (f : Float → Float) (vs : List Float) (cells : List Grid) :
    refillCells ((pointsOfCells cells).map f ++ vs) cells = (mapCells f cells, vs) := by
  match cells with
  | [] =>
    rw [pointsOfCells, mapCells]
    rfl
  | cell :: cells =>
    rw [pointsOfCells, mapCells, List.map_append, List.append_assoc, refillCells,
      refill_map_points f _ cell]
    dsimp only
    rw [refillCells_map_points f vs cells]

end

end Grid

namespace Node

open Grid

/-! ## Trees -/

mutual

theorem hasVar_of_mem_powers (node : Node) {p : Node × Node} (hp : p ∈ node.powers)
    (hv : p.2.hasVar = true) : node.hasVar = true := by
  match node with
  | .number _ => rw [powers] at hp; exact absurd hp List.not_mem_nil
  | .var => rw [hasVar]
  | .power base none =>
    rw [powers] at hp
    rw [hasVar, hasVar_of_mem_powers base hp hv]
  | .power base (some exponent) =>
    rw [powers] at hp
    rw [hasVar, Bool.or_eq_true]
    rcases List.mem_cons.mp hp with rfl | hp
    · exact .inr hv
    · rcases List.mem_append.mp hp with hp | hp
      · exact .inl (hasVar_of_mem_powers base hp hv)
      · exact .inr (hasVar_of_mem_powers exponent hp hv)
  | .signed _ inner =>
    rw [powers] at hp
    rw [hasVar, hasVar_of_mem_powers inner hp hv]
  | .product first rest =>
    rw [powers] at hp
    rw [hasVar, Bool.or_eq_true]
    rcases List.mem_append.mp hp with hp | hp
    · exact .inl (hasVar_of_mem_powers first hp hv)
    · exact .inr (factorsHaveVar_of_mem_powers rest hp hv)
  | .sum first rest =>
    rw [powers] at hp
    rw [hasVar, Bool.or_eq_true]
    rcases List.mem_append.mp hp with hp | hp
    · exact .inl (hasVar_of_mem_powers first hp hv)
    · exact .inr (termsHaveVar_of_mem_powers rest hp hv)

theorem factorsHaveVar_of_mem_powers (rest : List (MulOp × Node)) {p : Node × Node}
    (hp : p ∈ powersOfFactors rest) (hv : p.2.hasVar = true) : factorsHaveVar rest = true := by
  match rest with
  | [] => rw [powersOfFactors] at hp; exact absurd hp List.not_mem_nil
  | (_, factor) :: rest =>
    rw [powersOfFactors] at hp
    rw [factorsHaveVar, Bool.or_eq_true]
    rcases List.mem_append.mp hp with hp | hp
    · exact .inl (hasVar_of_mem_powers factor hp hv)
    · exact .inr (factorsHaveVar_of_mem_powers rest hp hv)

theorem termsHaveVar_of_mem_powers (rest : List (AddOp × Node)) {p : Node × Node}
    (hp : p ∈ powersOfTerms rest) (hv : p.2.hasVar = true) : termsHaveVar rest = true := by
  match rest with
  | [] => rw [powersOfTerms] at hp; exact absurd hp List.not_mem_nil
  | (_, term) :: rest =>
    rw [powersOfTerms] at hp
    rw [termsHaveVar, Bool.or_eq_true]
    rcases List.mem_append.mp hp with hp | hp
    · exact .inl (hasVar_of_mem_powers term hp hv)
    · exact .inr (termsHaveVar_of_mem_powers rest hp hv)

end

variable {node : Node}

/-- If no exponent varies, all powers follow the rule for one point. -/
theorem evalEach_eq_eval_of_exponents (h : ∀ p ∈ node.powers, p.2.hasVar = false) (x : Float) :
    node.evalEach x = node.eval x := by
  refine evalEach_eq_eval ?_
  rintro ⟨p, hp, hvaries, -⟩
  rw [h p hp] at hvaries
  cases hvaries

theorem evalEach_of_const (h : node.hasVar = false) (x x' : Float) :
    node.evalEach x = node.eval x' := by
  have htabulates := tabulates_evalBy [] node
  rw [h] at htabulates
  obtain ⟨v, -, hv⟩ := htabulates.exists_const
  have hone : node.evalEach x' = node.eval x' :=
    evalEach_eq_eval_of_exponents (fun p hp ↦ by
      rw [← Bool.not_eq_true]
      exact fun hvaries ↦ absurd (hasVar_of_mem_powers node hp hvaries) (by rw [h]; decide)) x'
  rw [← hone]
  exact (congrFun hv x).trans (congrFun hv x').symm

/-! ## Values on grids -/

/-- On rows of any depth, every point is replaced by the value at one of many points. -/
theorem evalGrid_row {cells : List Grid} {shape : List Nat}
    (h : (row cells).shape? = some shape) (node : Node) :
    node.evalGrid (row cells) = some ((row cells).map node.evalEach) := by
  have hvalues : (node.evalBy .onColumns (row cells).column).spread (row cells).points.length
      = (row cells).points.map node.evalEach := evalList_eq_map node (row cells).points
  have hrefill := refill_map_points node.evalEach [] (row cells)
  rw [List.append_nil] at hrefill
  rw [evalGrid, h]
  dsimp only
  rw [hvalues, hrefill]

/-- **Evaluation on a grid replaces every point by the value there.** The values have the shape of
the points, and each is that of its point, computed like one of many. So reordering points reorders
values, cutting or reshaping the grid cuts or reshapes the values, a constant fills the whole shape,
and if no exponent varies the values are those at one point. -/
theorem evalGrid_pointwise {cells : List Grid} {shape : List Nat}
    (h : (row cells).shape? = some shape) (node : Node) :
    ∃ ys : Grid, node.evalGrid (row cells) = some ys ∧ ys.shape? = some shape ∧
      (∀ path : List Nat, ys.at? path = ((row cells).at? path).map node.evalEach) ∧
      (∀ (cells' : List Grid) (shape' : List Nat), (row cells').shape? = some shape' →
        ∃ ys' : Grid, node.evalGrid (row cells') = some ys' ∧
          (∀ path path' : List Nat, (row cells').at? path' = (row cells).at? path →
            ys'.at? path' = ys.at? path) ∧
          ((row cells').points = (row cells).points → ys'.points = ys.points)) ∧
      (∀ front back : List Grid, cells = front ++ back →
        ∃ ys₁ ys₂ : List Grid, node.evalGrid (row front) = some (row ys₁) ∧
          node.evalGrid (row back) = some (row ys₂) ∧ ys = row (ys₁ ++ ys₂)) ∧
      (node.hasVar = false → ∀ (x : Float) (path : List Nat), List.Forall₂ (· < ·) path shape →
        ys.at? path = some (node.eval x)) ∧
      ((∀ p ∈ node.powers, p.2.hasVar = false) →
        ∀ path : List Nat, ys.at? path = ((row cells).at? path).map node.eval) := by
  refine ⟨(row cells).map node.evalEach, evalGrid_row h node, (shape?_map _ _).trans h,
    fun path ↦ at?_map _ path _, fun cells' shape' h' ↦ ?_, ?_, fun hconst x path hpath ↦ ?_,
    fun hexponents path ↦ ?_⟩
  · refine ⟨_, evalGrid_row h' node, fun path path' hsame ↦ ?_, fun hsame ↦ ?_⟩
    · rw [at?_map, at?_map, hsame]
    · rw [points_map, points_map, hsame]
  · rintro front back rfl
    obtain ⟨shape₁, h₁⟩ := exists_shape?_of_subset h (List.subset_append_left front back)
    obtain ⟨shape₂, h₂⟩ := exists_shape?_of_subset h (List.subset_append_right front back)
    refine ⟨_, _, (evalGrid_row h₁ node).trans (by rw [map_row]),
      (evalGrid_row h₂ node).trans (by rw [map_row]), ?_⟩
    rw [map_row, List.map_append]
  · obtain ⟨x', hx'⟩ := (exists_at?_iff h).mpr hpath
    rw [at?_map, hx', Option.map_some, evalEach_of_const hconst x' x]
  · rw [at?_map, funext (evalEach_eq_eval_of_exponents hexponents)]

/-- The same point in two places of a square, and a power whose exponent varies. -/
theorem evalGrid_pointwise_of_square :
    ∃ ys : Grid, (power .var (some .var)).evalGrid
        (row [row [point 0.5, point 2.0], row [point 3.0, point 0.5]]) = some ys ∧
      ys.shape? = some [2, 2] ∧ ys.at? [1, 1] = some (Binary64.power 0.5 0.5) ∧
      ys.at? [0, 0] = some (Binary64.power 0.5 0.5) ∧ ys.at? [2, 0] = none := by
  have h : (row [row [point 0.5, point 2.0], row [point 3.0, point 0.5]]).shape? = some [2, 2] :=
    rfl
  obtain ⟨ys, hys, hshape, hat, -⟩ := evalGrid_pointwise h (power .var (some .var))
  exact ⟨ys, hys, hshape, hat [1, 1], hat [0, 0], hat [2, 0]⟩

end Node

end ExprSampler
