import ExprSampler.Proofs.Grammar.Depth
import ExprSampler.Proofs.Headroom.Histories
import ExprSampler.Proofs.Output.Outlines

/-!
# Walks over trees fit into the headroom

Evaluating, printing and displaying a tree are recursions over it, and how deeply their calls nest
is what headroom is granted for. To speak of that, each walk is written once more with its calls
marked: it gives the same value as before and, along with it, the nesting of its calls. Evaluation
and printing make one call for each level of the tree. Display makes two, one to add an operand and
one to add what is below it; the root is added by nobody.

The depth of the tree of an accepted text is bounded by the length of the text, so every walk stays
within the headroom of that length.
-/

namespace ExprSampler

/-! ## Nesting of calls -/

/-- A value, and how deeply the calls nest that give it. -/
@[ext] structure Nested (α : Type) where
  value : α
  depth : Nat

namespace Nested

variable {α β : Type}

/-- One after the other, computations nest as deeply as the deeper of them. -/
instance : Monad Nested where
  pure a := ⟨a, 0⟩
  bind p f := ⟨(f p.value).value, max p.depth (f p.value).depth⟩

/-- A computation as the body of a call. -/
def call (p : Nested α) : Nested α := ⟨p.value, p.depth + 1⟩

theorem mk_bind (a : α) (n : Nat) (f : α → Nested β) :
    (⟨a, n⟩ : Nested α) >>= f = ⟨(f a).value, max n (f a).depth⟩ := rfl

theorem mk_bind_pure (a : α) (n : Nat) (f : α → β) :
    (⟨a, n⟩ : Nested α) >>= (fun a ↦ pure (f a)) = ⟨f a, n⟩ :=
  congrArg _ (Nat.max_zero n)

end Nested

namespace Node

open Nested (call)

/-! ## Evaluation -/

section

variable {α : Type} (A : Arithmetic α) (x : α)

mutual

/-- The value of a tree, and how deeply the calls nest that evaluate it. -/
def evalNested : Node → Nested α
  | .number v => call (pure (A.ofFloat v))
  | .var => call (pure x)
  | .power base none => call (evalNested base)
  | .power base (some exponent) => call do
    let b ← evalNested base
    let e ← evalNested exponent
    pure (A.pow b e)
  | .signed negate inner => call do
    let v ← evalNested inner
    pure (if negate then A.neg v else v)
  | .product first rest => call do
    let result ← evalNested first
    productNested result rest
  | .sum first rest => call do
    let total ← evalNested first
    sumNested total rest

/-- A product going on with the given factors. -/
def productNested (result : α) : List (MulOp × Node) → Nested α
  | [] => pure result
  | (op, factor) :: rest => do
    let operand ← evalNested factor
    productNested (A.multiplicand result op operand) rest

/-- A sum going on with the given terms. -/
def sumNested (total : α) : List (AddOp × Node) → Nested α
  | [] => pure total
  | (op, term) :: rest => do
    let operand ← evalNested term
    sumNested (A.addend total op operand) rest

end

mutual

/-- Evaluation makes one call for each level of the tree. -/
theorem evalNested_eq (t : Node) : t.evalNested A x = ⟨t.evalBy A x, t.depth⟩ := by
  match t with
  | .number v => rfl
  | .var => rfl
  | .power base none =>
    rw [evalNested, evalNested_eq base, evalBy, depth]
    rfl
  | .power base (some exponent) =>
    rw [evalNested, evalNested_eq base, evalNested_eq exponent, Nested.mk_bind,
      Nested.mk_bind_pure, evalBy, depth]
    rfl
  | .signed negate inner =>
    rw [evalNested, evalNested_eq inner, Nested.mk_bind_pure, evalBy, depth]
    rfl
  | .product first rest =>
    rw [evalNested, evalNested_eq first, Nested.mk_bind, productNested_eq, evalBy, depth]
    rfl
  | .sum first rest =>
    rw [evalNested, evalNested_eq first, Nested.mk_bind, sumNested_eq, evalBy, depth]
    rfl

theorem productNested_eq (result : α) (rest : List (MulOp × Node)) :
    productNested A x result rest = ⟨productBy A x result rest, factorsDepth rest⟩ := by
  match rest with
  | [] => rfl
  | (op, factor) :: rest =>
    rw [productNested, evalNested_eq factor, Nested.mk_bind, productNested_eq, productBy,
      factorsDepth]

theorem sumNested_eq (total : α) (rest : List (AddOp × Node)) :
    sumNested A x total rest = ⟨sumBy A x total rest, termsDepth rest⟩ := by
  match rest with
  | [] => rfl
  | (op, term) :: rest =>
    rw [sumNested, evalNested_eq term, Nested.mk_bind, sumNested_eq, sumBy, termsDepth]

end

end

/-! ## Printing -/

section

variable (name : List Char)

mutual

/-- The canonical text of a tree, and how deeply the calls nest that write it. -/
def charsNested : Node → Nested (List Char)
  | .number v => call (pure (numberChars v))
  | .var => call (pure name)
  | .power base none => call do
    let cs ← charsNested base
    pure (asBase base cs)
  | .power base (some exponent) => call do
    let cs ← charsNested base
    let more ← charsNested exponent
    pure (asBase base cs ++ '^' :: more)
  | .signed negate inner => call do
    let cs ← charsNested inner
    pure (if negate then '-' :: cs else cs)
  | .product first rest => call do
    let cs ← charsNested first
    let more ← factorsCharsNested rest
    pure (cs ++ more)
  | .sum first rest => call do
    let cs ← charsNested first
    let more ← termsCharsNested rest
    pure (cs ++ more)

/-- The canonical text of the factors after the first. -/
def factorsCharsNested : List (MulOp × Node) → Nested (List Char)
  | [] => pure []
  | (op, factor) :: rest => do
    let cs ← charsNested factor
    let more ← factorsCharsNested rest
    pure (op.sign :: cs ++ more)

/-- The canonical text of the terms after the first. -/
def termsCharsNested : List (AddOp × Node) → Nested (List Char)
  | [] => pure []
  | (op, term) :: rest => do
    let cs ← charsNested term
    let more ← termsCharsNested rest
    pure (op.sign :: cs ++ more)

end

mutual

theorem charsNested_eq (t : Node) : t.charsNested name = ⟨t.chars name, t.depth⟩ := by
  match t with
  | .number v => rfl
  | .var => rfl
  | .power base none =>
    rw [charsNested, charsNested_eq base, Nested.mk_bind_pure, chars, depth]
    rfl
  | .power base (some exponent) =>
    rw [charsNested, charsNested_eq base, charsNested_eq exponent, Nested.mk_bind,
      Nested.mk_bind_pure, chars, depth]
    rfl
  | .signed negate inner =>
    rw [charsNested, charsNested_eq inner, Nested.mk_bind_pure, chars, depth]
    rfl
  | .product first rest =>
    rw [charsNested, charsNested_eq first, factorsCharsNested_eq, Nested.mk_bind,
      Nested.mk_bind_pure, chars, depth]
    rfl
  | .sum first rest =>
    rw [charsNested, charsNested_eq first, termsCharsNested_eq, Nested.mk_bind,
      Nested.mk_bind_pure, chars, depth]
    rfl

theorem factorsCharsNested_eq (rest : List (MulOp × Node)) :
    factorsCharsNested name rest = ⟨factorsChars name rest, factorsDepth rest⟩ := by
  match rest with
  | [] => rfl
  | (op, factor) :: rest =>
    rw [factorsCharsNested, charsNested_eq factor, factorsCharsNested_eq, Nested.mk_bind,
      Nested.mk_bind_pure, factorsChars, factorsDepth]

theorem termsCharsNested_eq (rest : List (AddOp × Node)) :
    termsCharsNested name rest = ⟨termsChars name rest, termsDepth rest⟩ := by
  match rest with
  | [] => rfl
  | (op, term) :: rest =>
    rw [termsCharsNested, charsNested_eq term, termsCharsNested_eq, Nested.mk_bind,
      Nested.mk_bind_pure, termsChars, termsDepth]

end

end

/-! ## Display -/

section

variable (name : String)

/-- An operand is added in a call, with what is below it under its label. -/
def addEntry (label : Label) (children : Nested (List Outline)) : Nested Outline := call do
  let children ← children
  pure (.entry label children)

mutual

/-- The outlines below a node, and how deeply the calls nest that add them. -/
def addChildren : Node → Nested (List Outline)
  | .number _ => call (pure [])
  | .var => call (pure [])
  | .power base none => call do
    let operand ← addEntry ((base.label name).marked "") (addChildren base)
    pure [operand]
  | .power base (some exponent) => call do
    let operand ← addEntry ((base.label name).marked "") (addChildren base)
    let raised ← addEntry ((exponent.label name).marked "^ ") (addChildren exponent)
    pure [operand, raised]
  | .signed _ inner => call do
    let operand ← addEntry ((inner.label name).marked "") (addChildren inner)
    pure [operand]
  | .product first rest => call do
    let operand ← addEntry ((first.label name).marked "") (addChildren first)
    let more ← addFactors rest
    pure (operand :: more)
  | .sum first rest => call do
    let operand ← addEntry ((first.label name).marked "") (addChildren first)
    let more ← addTerms rest
    pure (operand :: more)

/-- The outlines of the factors after the first. -/
def addFactors : List (MulOp × Node) → Nested (List Outline)
  | [] => pure []
  | (op, factor) :: rest => do
    let operand ← addEntry ((factor.label name).marked op.mark) (addChildren factor)
    let more ← addFactors rest
    pure (operand :: more)

/-- The outlines of the terms after the first. -/
def addTerms : List (AddOp × Node) → Nested (List Outline)
  | [] => pure []
  | (op, term) :: rest => do
    let operand ← addEntry ((term.label name).marked op.mark) (addChildren term)
    let more ← addTerms rest
    pure (operand :: more)

end

theorem depth_pos (t : Node) : 0 < t.depth := by
  match t with
  | .number _ | .var | .power _ none | .power _ (some _) | .signed _ _ | .product _ _
  | .sum _ _ => exact Nat.succ_pos _

/-- The call that adds an operand is one around those that add what is below it. -/
theorem addEntry_of_children {t : Node}
    (h : t.addChildren name
      = ⟨t.operands.map fun p ↦ p.2.outlineFrom name p.1, 2 * t.depth - 1⟩) (mark : String) :
    addEntry ((t.label name).marked mark) (t.addChildren name)
      = ⟨t.outlineFrom name mark, 2 * t.depth⟩ := by
  have hdepth : 2 * t.depth - 1 + 1 = 2 * t.depth := by
    have hpos := t.depth_pos
    omega
  rw [addEntry, h, Nested.mk_bind_pure, call, hdepth, outlineFrom_eq]

mutual

/-- Display makes two calls for each level of the tree, except that nobody adds the root. -/
theorem addChildren_eq (t : Node) :
    t.addChildren name
      = ⟨t.operands.map fun p ↦ p.2.outlineFrom name p.1, 2 * t.depth - 1⟩ := by
  match t with
  | .number _ => rfl
  | .var => rfl
  | .power base none =>
    rw [addChildren, addEntry_of_children name (addChildren_eq base), Nested.mk_bind_pure]
    rfl
  | .power base (some exponent) =>
    rw [addChildren, addEntry_of_children name (addChildren_eq base), Nested.mk_bind,
      addEntry_of_children name (addChildren_eq exponent), Nested.mk_bind_pure,
      Nat.mul_max_mul_left]
    rfl
  | .signed _ inner =>
    rw [addChildren, addEntry_of_children name (addChildren_eq inner), Nested.mk_bind_pure]
    rfl
  | .product first rest =>
    rw [addChildren, addEntry_of_children name (addChildren_eq first), Nested.mk_bind,
      addFactors_eq, Nested.mk_bind_pure, Nat.mul_max_mul_left, operands, map_outlineFrom_joined,
      outlineFactors_eq_map]
    rfl
  | .sum first rest =>
    rw [addChildren, addEntry_of_children name (addChildren_eq first), Nested.mk_bind,
      addTerms_eq, Nested.mk_bind_pure, Nat.mul_max_mul_left, operands, map_outlineFrom_joined,
      outlineTerms_eq_map]
    rfl

theorem addFactors_eq (rest : List (MulOp × Node)) :
    addFactors name rest = ⟨outlineFactors name rest, 2 * factorsDepth rest⟩ := by
  match rest with
  | [] => rfl
  | (op, factor) :: rest =>
    rw [addFactors, addEntry_of_children name (addChildren_eq factor), Nested.mk_bind,
      addFactors_eq, Nested.mk_bind_pure, outlineFactors, factorsDepth, Nat.mul_max_mul_left]
    rfl

theorem addTerms_eq (rest : List (AddOp × Node)) :
    addTerms name rest = ⟨outlineTerms name rest, 2 * termsDepth rest⟩ := by
  match rest with
  | [] => rfl
  | (op, term) :: rest =>
    rw [addTerms, addEntry_of_children name (addChildren_eq term), Nested.mk_bind,
      addTerms_eq, Nested.mk_bind_pure, outlineTerms, termsDepth, Nat.mul_max_mul_left]
    rfl

end

end

/-- The outline of a tree, and how deeply the calls nest that add what is below the root. -/
def outlineNested (bound : Option String) (t : Node) : Nested Outline := do
  let children ← t.addChildren (shownName bound)
  pure (.entry (t.label (shownName bound)) children)

theorem outlineNested_eq (bound : Option String) (t : Node) :
    t.outlineNested bound = ⟨t.outline bound, 2 * t.depth - 1⟩ := by
  have hlabel : (t.label (shownName bound)).marked "" = t.label (shownName bound) :=
    congrArg (Label.mk · _) String.empty_append
  rw [outlineNested, addChildren_eq, Nested.mk_bind_pure, outline, outlineFrom_eq, hlabel]

end Node

/-! ## Accepted texts -/

/-- The limit that work was granted leaves room for what each character of its text may nest. -/
theorem Headroom.room_of_granted {h : Headroom} {n : Int} (hn : 0 ≤ n)
    (hgranted : (h.enter n).1 = true) :
    (h.enter n).2.saved + perCharacter * n ≤ (h.enter n).2.limit := by
  rw [Workload.enter_of_granted hgranted]
  have hneeded : h.count.needed n = h.count.saved + perCharacter * n := by
    rw [needed, Int.max_eq_left hn, Int.mul_comm]
  rw [← hneeded]
  exact Int.le_max_right _ _

/-- **Walks over the tree of an accepted text fit into the headroom of its length.** The depth of
the tree is bounded by the length of the text. Evaluation and printing nest no deeper than that, and
display nests no deeper than twice that; work that was granted headroom has room for either. -/
theorem walks_of_parse {text : String} {e : Expression} (h : Expression.parse text = .ok e) :
    e.root.depth ≤ 2 * e.source.length + 3 ∧
    (∀ {α : Type} (A : Arithmetic α) (x : α),
      (e.root.evalNested A x).value = e.root.evalBy A x ∧
      (e.root.evalNested A x).depth ≤ 2 * e.source.length + 3) ∧
    (∀ name : List Char, (e.root.charsNested name).value = e.root.chars name ∧
      (e.root.charsNested name).depth ≤ 2 * e.source.length + 3) ∧
    (∀ bound : Option String, (e.root.outlineNested bound).value = e.root.outline bound ∧
      (e.root.outlineNested bound).depth ≤ 4 * e.source.length + 6) ∧
    2 * e.source.length + 3 ≤ 16 * e.source.length ∧
    4 * e.source.length + 6 ≤ 16 * e.source.length ∧
    ∀ room : Headroom, (room.enter e.source.length).1 = true →
      (room.enter e.source.length).2.saved + (16 * e.source.length : Nat)
        ≤ (room.enter e.source.length).2.limit := by
  obtain ⟨hpos, hdepth⟩ := Grammar.depth_root_le h
  refine ⟨hdepth, fun A x ↦ ?_, fun name ↦ ?_, fun bound ↦ ?_, ?_, ?_, fun room hgranted ↦ ?_⟩
  · rw [Node.evalNested_eq]
    exact ⟨rfl, hdepth⟩
  · rw [Node.charsNested_eq]
    exact ⟨rfl, hdepth⟩
  · rw [Node.outlineNested_eq]
    refine ⟨rfl, ?_⟩
    dsimp only
    omega
  · omega
  · omega
  · exact Headroom.room_of_granted (Int.natCast_nonneg _) hgranted

/-- Two pairs of parentheses around the variable make a tree as deep as a text of that length
can. -/
theorem walks_of_parse_of_group :
    ∃ e, Expression.parse "((x))" = .ok e ∧ e.source.length = 5 ∧
      e.root.depth = 2 * 5 + 3 ∧ (e.root.evalNested .atPoint 1.0).depth ≤ 2 * 5 + 3 ∧
      (e.root.outlineNested (some "x")).depth ≤ 4 * 5 + 6 ∧
      ((Headroom.idle 1000).enter 5).2.saved + (16 * 5 : Nat)
        ≤ ((Headroom.idle 1000).enter 5).2.limit := by
  have hparse : Expression.parse "((x))" = _ :=
    Grammar.parse_of_parseTree (show parseTree none _ = (.ok _, some "x") from rfl)
  obtain ⟨-, heval, -, houtline, -, -, hroom⟩ := walks_of_parse hparse
  exact ⟨_, hparse, rfl, rfl, (heval .atPoint 1.0).2, (houtline (some "x")).2,
    hroom (.idle 1000) rfl⟩

end ExprSampler
