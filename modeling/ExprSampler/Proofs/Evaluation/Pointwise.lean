import ExprSampler.Expr.Evaluation

/-!
# Evaluation at many points

Evaluating a tree at a list of points evaluates it at each of them, and no point has a say in the
value at another. What happens at one point is not quite evaluation there, though: an exponent that
the variable occurs in varies with the points, so it is never known to be a single value, and its
power follows the general rule.
-/

namespace ExprSampler

namespace Node

/-! ## Where the variable occurs -/

mutual

/-- Whether the variable occurs in a tree. -/
def hasVar : Node → Bool
  | .number _ => false
  | .var => true
  | .power base none => base.hasVar
  | .power base (some exponent) => base.hasVar || exponent.hasVar
  | .signed _ inner => inner.hasVar
  | .product first rest => first.hasVar || factorsHaveVar rest
  | .sum first rest => first.hasVar || termsHaveVar rest

/-- Whether the variable occurs in one of the factors. -/
def factorsHaveVar : List (MulOp × Node) → Bool
  | [] => false
  | (_, factor) :: rest => factor.hasVar || factorsHaveVar rest

/-- Whether the variable occurs in one of the terms. -/
def termsHaveVar : List (AddOp × Node) → Bool
  | [] => false
  | (_, term) :: rest => term.hasVar || termsHaveVar rest

end

/-! ## The value at one of many points -/

/-- How powers are computed, according to whether the exponent varies with the points. -/
def powerRule (varies : Bool) : Float → Float → Float :=
  if varies then Binary64.power else Binary64.powerBySingle

mutual

/-- The value at a point that is one of many: only an exponent without the variable counts as
single. -/
def evalEach (x : Float) : Node → Float
  | .number v => v
  | .var => x
  | .power base none => evalEach x base
  | .power base (some exponent) =>
    powerRule exponent.hasVar (evalEach x base) (evalEach x exponent)
  | .signed negate inner => if negate then -evalEach x inner else evalEach x inner
  | .product first rest => productEach x (evalEach x first) rest
  | .sum first rest => sumEach x (evalEach x first) rest

/-- A product going on with the given factors. -/
def productEach (x result : Float) : List (MulOp × Node) → Float
  | [] => result
  | (op, factor) :: rest =>
    productEach x (Arithmetic.atPoint.multiplicand result op (evalEach x factor)) rest

/-- A sum going on with the given terms. -/
def sumEach (x total : Float) : List (AddOp × Node) → Float
  | [] => total
  | (op, term) :: rest => sumEach x (Arithmetic.atPoint.addend total op (evalEach x term)) rest

end

end Node

/-! ## Columns that tabulate functions -/

/-- The column holds the values of a function at the points; it is a single value exactly if the
function does not vary. -/
structure Column.Tabulates (xs : List Float) (c : Column) (varies : Bool) (f : Float → Float) :
    Prop where
  each : varies = true → c = .each (xs.map f)
  single : varies = false → ∀ x, c = .single (f x)

namespace Column.Tabulates

variable {xs : List Float} {c c' : Column} {varies varies' : Bool} {f g : Float → Float}

theorem const (xs : List Float) (v : Float) : (Column.single v).Tabulates xs false fun _ ↦ v :=
  ⟨nofun, fun _ _ ↦ rfl⟩

theorem points (xs : List Float) : (Column.each xs).Tabulates xs true fun x ↦ x :=
  ⟨fun _ ↦ by rw [List.map_id'], nofun⟩

theorem map (op : Float → Float) (h : c.Tabulates xs varies f) :
    (c.map op).Tabulates xs varies fun x ↦ op (f x) where
  each hv := by
    rw [h.each hv, Column.map, List.map_map]
    rfl
  single hv x := by rw [h.single hv x, Column.map]

theorem exists_const (h : c.Tabulates xs false f) : ∃ v, c = .single v ∧ f = fun _ ↦ v := by
  refine ⟨f 0.0, h.single rfl 0.0, funext fun x ↦ ?_⟩
  have hx := h.single rfl x
  rw [h.single rfl 0.0] at hx
  exact (Column.single.inj hx).symm

theorem zip (op : Float → Float → Float) (h : c.Tabulates xs varies f)
    (h' : c'.Tabulates xs varies' g) :
    (c.zip op c').Tabulates xs (varies || varies') fun x ↦ op (f x) (g x) := by
  cases varies with
  | false =>
    obtain ⟨v, rfl, rfl⟩ := h.exists_const
    cases varies' with
    | false =>
      obtain ⟨w, rfl, rfl⟩ := h'.exists_const
      exact const xs (op v w)
    | true =>
      rw [h'.each rfl]
      exact (points xs |>.map g).map (op v)
  | true =>
    rw [h.each rfl]
    refine ⟨fun _ ↦ ?_, nofun⟩
    cases varies' with
    | false =>
      obtain ⟨w, rfl, rfl⟩ := h'.exists_const
      rw [Column.zip, List.map_map]
      rfl
    | true => rw [h'.each rfl, Column.zip, List.zipWith_map, List.zipWith_self]

/-- An exponent is treated as single exactly if it does not vary. -/
theorem pow (h : c.Tabulates xs varies f) (h' : c'.Tabulates xs varies' g) :
    (c.pow c').Tabulates xs (varies || varies') fun x ↦ Node.powerRule varies' (f x) (g x) := by
  cases varies' with
  | false =>
    -- The exponent is one value for all points, which is what the column keeps of it.
    obtain ⟨w, rfl, rfl⟩ := h'.exists_const
    rw [Bool.or_false]
    exact h.map (Binary64.powerBySingle · w)
  | true =>
    have hzip := h.zip Binary64.power h'
    rw [h'.each rfl] at hzip ⊢
    exact hzip

end Column.Tabulates

/-! ## Trees -/

namespace Node

mutual

/-- Evaluating a tree at a list of points tabulates its value at each of many points. -/
theorem tabulates_evalBy (xs : List Float) (node : Node) :
    (node.evalBy .onColumns (.each xs)).Tabulates xs node.hasVar fun x ↦ node.evalEach x := by
  match node with
  | .number v =>
    simp only [evalBy, hasVar, evalEach]
    exact .const xs v
  | .var =>
    simp only [evalBy, hasVar, evalEach]
    exact .points xs
  | .power base none =>
    simp only [evalBy, hasVar, evalEach]
    exact tabulates_evalBy xs base
  | .power base (some exponent) =>
    simp only [evalBy, hasVar, evalEach]
    exact (tabulates_evalBy xs base).pow (tabulates_evalBy xs exponent)
  | .signed negate inner =>
    have h := tabulates_evalBy xs inner
    simp only [evalBy, hasVar, evalEach]
    cases negate with
    | true => exact h.map fun v ↦ -v
    | false => exact h
  | .product first rest =>
    simp only [evalBy, hasVar, evalEach]
    exact tabulates_productBy (tabulates_evalBy xs first) rest
  | .sum first rest =>
    simp only [evalBy, hasVar, evalEach]
    exact tabulates_sumBy (tabulates_evalBy xs first) rest

theorem tabulates_productBy {xs : List Float} {c : Column} {varies : Bool} {f : Float → Float}
    (h : c.Tabulates xs varies f) (rest : List (MulOp × Node)) :
    (productBy .onColumns (.each xs) c rest).Tabulates xs (varies || factorsHaveVar rest)
      fun x ↦ productEach x (f x) rest := by
  match rest with
  | [] =>
    simp only [productBy, factorsHaveVar, productEach, Bool.or_false]
    exact h
  | (op, factor) :: rest =>
    simp only [productBy, factorsHaveVar, productEach, ← Bool.or_assoc]
    refine tabulates_productBy ?_ rest
    rcases op with _ | _
    · exact h.zip (fun v w ↦ v * w) (tabulates_evalBy xs factor)
    · exact h.zip (fun v w ↦ v / w) (tabulates_evalBy xs factor)

theorem tabulates_sumBy {xs : List Float} {c : Column} {varies : Bool} {f : Float → Float}
    (h : c.Tabulates xs varies f) (rest : List (AddOp × Node)) :
    (sumBy .onColumns (.each xs) c rest).Tabulates xs (varies || termsHaveVar rest)
      fun x ↦ sumEach x (f x) rest := by
  match rest with
  | [] =>
    simp only [sumBy, termsHaveVar, sumEach, Bool.or_false]
    exact h
  | (op, term) :: rest =>
    simp only [sumBy, termsHaveVar, sumEach, ← Bool.or_assoc]
    refine tabulates_sumBy ?_ rest
    rcases op with _ | _
    · exact h.zip (fun v w ↦ v + w) (tabulates_evalBy xs term)
    · exact h.zip (fun v w ↦ v - w) (tabulates_evalBy xs term)

end

/-- **Evaluating at a list of points is evaluating at each of them.** -/
theorem evalList_eq_map (node : Node) (xs : List Float) :
    node.evalList xs = xs.map fun x ↦ node.evalEach x := by
  have h := tabulates_evalBy xs node
  cases hv : node.hasVar with
  | true =>
    rw [hv] at h
    rw [evalList, h.each rfl, Column.spread]
  | false =>
    rw [hv] at h
    obtain ⟨v, hc, hf⟩ := h.exists_const
    rw [evalList, hc, hf, Column.spread, List.map_const']

end Node

end ExprSampler
