import ExprSampler.Proofs.Binary64.Powers
import ExprSampler.Proofs.Evaluation.Pointwise
import ExprSampler.Proofs.Grammar.Texts

/-!
# One point and many

The value at a point that is one of many is the value at that point alone, except where a power
comes between: an exponent in which the variable occurs is a single value at one point but not at
many, and the two rules for powers part at some bases. `(-0)^x` at `0.5` is the smallest case, a
negative zero at one point and a positive one at many.
-/

namespace ExprSampler

namespace Node

/-! ## The powers of a tree -/

mutual

/-- Bases and exponents of all powers in a tree. -/
def powers : Node → List (Node × Node)
  | .number _ => []
  | .var => []
  | .power base none => base.powers
  | .power base (some exponent) => (base, exponent) :: (base.powers ++ exponent.powers)
  | .signed _ inner => inner.powers
  | .product first rest => first.powers ++ powersOfFactors rest
  | .sum first rest => first.powers ++ powersOfTerms rest

/-- Bases and exponents of all powers in factors. -/
def powersOfFactors : List (MulOp × Node) → List (Node × Node)
  | [] => []
  | (_, factor) :: rest => factor.powers ++ powersOfFactors rest

/-- Bases and exponents of all powers in terms. -/
def powersOfTerms : List (AddOp × Node) → List (Node × Node)
  | [] => []
  | (_, term) :: rest => term.powers ++ powersOfTerms rest

end

/-- The exponent varies and the two rules for powers part at the values of base and exponent. -/
def PowerParts (x : Float) (base exponent : Node) : Prop :=
  exponent.hasVar = true ∧ Binary64.RulesPart (base.eval x) (exponent.eval x)

/-- At the point, one of the powers in the tree depends on whether its exponent is single. -/
def PartsAt (x : Float) (node : Node) : Prop :=
  ∃ p ∈ node.powers, PowerParts x p.1 p.2

/-! ## Agreement -/

/-- A power of operands whose values agree has values that agree exactly where the rules do. -/
theorem powerRule_eq_iff (x : Float) (base exponent : Node) :
    powerRule exponent.hasVar (base.eval x) (exponent.eval x)
        = Binary64.powerBySingle (base.eval x) (exponent.eval x)
      ↔ ¬PowerParts x base exponent := by
  cases hv : exponent.hasVar with
  | true =>
    rw [powerRule, if_pos rfl, Binary64.power_eq_powerBySingle_iff, PowerParts]
    simp [hv]
  | false => simp [powerRule, PowerParts, hv]

mutual

theorem evalEach_eq_evalBy {x : Float} (node : Node)
    (h : ∀ p ∈ node.powers, ¬PowerParts x p.1 p.2) :
    node.evalEach x = node.evalBy .atPoint x := by
  match node with
  | .number v =>
    rw [evalEach, evalBy]
    rfl
  | .var => rw [evalEach, evalBy]
  | .power base none =>
    rw [evalEach, evalBy]
    exact evalEach_eq_evalBy base (by simpa only [powers] using h)
  | .power base (some exponent) =>
    rw [powers] at h
    have hbase := evalEach_eq_evalBy base fun p hp ↦
      h p (List.mem_cons_of_mem _ (List.mem_append_left _ hp))
    have hexponent := evalEach_eq_evalBy exponent fun p hp ↦
      h p (List.mem_cons_of_mem _ (List.mem_append_right _ hp))
    rw [evalEach, evalBy, hbase, hexponent]
    exact (powerRule_eq_iff x base exponent).mpr (h _ List.mem_cons_self)
  | .signed negate inner =>
    rw [evalEach, evalBy, evalEach_eq_evalBy inner (by simpa only [powers] using h)]
    rfl
  | .product first rest =>
    rw [powers] at h
    have hfirst := evalEach_eq_evalBy first fun p hp ↦ h p (List.mem_append_left _ hp)
    rw [evalEach, evalBy, hfirst]
    exact productEach_eq_productBy _ rest fun p hp ↦ h p (List.mem_append_right _ hp)
  | .sum first rest =>
    rw [powers] at h
    have hfirst := evalEach_eq_evalBy first fun p hp ↦ h p (List.mem_append_left _ hp)
    rw [evalEach, evalBy, hfirst]
    exact sumEach_eq_sumBy _ rest fun p hp ↦ h p (List.mem_append_right _ hp)

theorem productEach_eq_productBy {x : Float} (result : Float) (rest : List (MulOp × Node))
    (h : ∀ p ∈ powersOfFactors rest, ¬PowerParts x p.1 p.2) :
    productEach x result rest = productBy .atPoint x result rest := by
  match rest with
  | [] => rw [productEach, productBy]
  | (op, factor) :: rest =>
    rw [powersOfFactors] at h
    have hfactor := evalEach_eq_evalBy factor fun p hp ↦ h p (List.mem_append_left _ hp)
    rw [productEach, productBy, hfactor]
    exact productEach_eq_productBy _ rest fun p hp ↦ h p (List.mem_append_right _ hp)

theorem sumEach_eq_sumBy {x : Float} (total : Float) (rest : List (AddOp × Node))
    (h : ∀ p ∈ powersOfTerms rest, ¬PowerParts x p.1 p.2) :
    sumEach x total rest = sumBy .atPoint x total rest := by
  match rest with
  | [] => rw [sumEach, sumBy]
  | (op, term) :: rest =>
    rw [powersOfTerms] at h
    have hterm := evalEach_eq_evalBy term fun p hp ↦ h p (List.mem_append_left _ hp)
    rw [sumEach, sumBy, hterm]
    exact sumEach_eq_sumBy _ rest fun p hp ↦ h p (List.mem_append_right _ hp)

end

theorem evalEach_eq_eval {x : Float} {node : Node} (h : ¬node.PartsAt x) :
    node.evalEach x = node.eval x :=
  node.evalEach_eq_evalBy fun p hp hparts ↦ h ⟨p, hp, hparts⟩

/-- If a power's operands agree, it parts exactly if its values do not agree. -/
theorem evalEach_power_eq_eval_iff {x : Float} {base exponent : Node} (hbase : ¬base.PartsAt x)
    (hexponent : ¬exponent.PartsAt x) :
    (power base (some exponent)).evalEach x = (power base (some exponent)).eval x
      ↔ ¬(power base (some exponent)).PartsAt x := by
  have hvalue : (power base (some exponent)).eval x
      = Binary64.powerBySingle (base.eval x) (exponent.eval x) := by
    rw [eval, evalBy]
    rfl
  have hparts : (power base (some exponent)).PartsAt x ↔ PowerParts x base exponent := by
    rw [PartsAt, powers]
    refine ⟨?_, fun h ↦ ⟨_, List.mem_cons_self, h⟩⟩
    rintro ⟨p, hp, h⟩
    rcases List.mem_cons.mp hp with rfl | hp
    · exact h
    · rcases List.mem_append.mp hp with hp | hp
      · exact absurd ⟨p, hp, h⟩ hbase
      · exact absurd ⟨p, hp, h⟩ hexponent
  rw [hvalue, hparts, evalEach, evalEach_eq_eval hbase, evalEach_eq_eval hexponent]
  exact powerRule_eq_iff x base exponent

end Node

namespace Expression

open Node

/-- The tree of a text that is a single power. -/
def ofPower (base exponent : Node) : Node :=
  .sum (.product (.signed false (.power base (some exponent))) []) []

/-- **The value at one of many points is the value at that point alone, where no power parts.**
It never depends on the other points; and for a text that is a single power whose operands agree,
nothing less will do. -/
theorem getElem?_evalList (e : Expression) (xs : List Float) (i : Nat) :
    (e.evalList xs)[i]? = xs[i]?.map (fun x ↦ e.root.evalEach x) ∧
      ((∀ x ∈ xs[i]?, ¬e.root.PartsAt x) → (e.evalList xs)[i]? = xs[i]?.map e.eval) ∧
      ∀ base exponent : Node, e.root = ofPower base exponent →
        ∀ x ∈ xs[i]?, ¬base.PartsAt x → ¬exponent.PartsAt x →
          ((e.evalList xs)[i]? = xs[i]?.map e.eval ↔ ¬e.root.PartsAt x) := by
  have hmap : (e.evalList xs)[i]? = xs[i]?.map fun x ↦ e.root.evalEach x := by
    rw [evalList, evalList_eq_map, List.getElem?_map]
  refine ⟨hmap, fun h ↦ ?_, fun base exponent hroot x hx hbase hexponent ↦ ?_⟩
  · rw [hmap]
    exact Option.map_congr fun x hx ↦ evalEach_eq_eval (h x hx)
  · -- The levels around a single power hand its value on, at one point and at many.
    have hpower := evalEach_power_eq_eval_iff hbase hexponent
    have heach : e.root.evalEach x = (power base (some exponent)).evalEach x := by
      rw [hroot]
      rfl
    have hone : e.eval x = (power base (some exponent)).eval x := by
      rw [eval, hroot]
      rfl
    have hparts : e.root.PartsAt x ↔ (power base (some exponent)).PartsAt x := by
      rw [hroot, ofPower]
      simp only [PartsAt, powers, powersOfFactors, powersOfTerms, List.append_nil]
    rw [hmap, hx, Option.map_some, Option.map_some, Option.some_inj, heach, hone, hparts]
    exact hpower

section Zeros

open Grammar

/-- A zero in parentheses, behind minus signs, to the power of the variable. -/
def zeroPower (signs : Nat) : Derivation .sum :=
  let zero : Derivation .sum :=
    .sum (.term (.factor signs (.plain (.number ['0'] none))) .noFactor) .noAddend
  .sum (.term (.factor 0 (.raised (.group zero) (.factor 0 (.plain (.letter 'x'))))) .noFactor)
    .noAddend

theorem uniform_zeroPower (signs : Nat) : Uniform none (zeroPower signs).text := by
  have htext : (zeroPower signs).text
      = '(' :: (List.replicate signs '-' ++ ['0', ')', '^']) ++ ['x'] := by
    simp [zeroPower, Derivation.text, fractionChars]
  have hletters : NoLetters ('(' :: (List.replicate signs '-' ++ ['0', ')', '^'])) := by
    have hzero : NoLetters ['0', ')', '^'] := by simp [NoLetters]
    exact NoLetters.append (noLetters_singleton rfl)
      ((Derivation.noLetters_signs signs).append hzero)
  rw [htext, uniform_append, nameAfter_of_noLetters hletters]
  exact ⟨uniform_of_noLetters hletters, uniform_singleton (by simp)⟩

theorem parse_zeroPower (signs : Nat) :
    Expression.parse (String.ofList (zeroPower signs).text)
      = .ok ⟨(zeroPower signs).tree, nameAfter none (zeroPower signs).text,
          String.ofList (zeroPower signs).text⟩ :=
  parse_of_derivation (by simp [zeroPower, Derivation.Proper, Derivation.IsDigits])
    (uniform_zeroPower signs)

theorem getElem?_evalList_of_positive_zero :
    ∃ e : Expression, Expression.parse "(0)^x" = .ok e ∧
      (∀ x ∈ [(0.5 : Float)][0]?, ¬e.root.PartsAt x) ∧
      (e.evalList [0.5])[0]? = some (e.eval 0.5) := by
  have hparts : ∀ x ∈ [(0.5 : Float)][0]?, ¬(zeroPower 0).tree.PartsAt x := by
    rintro x hx ⟨p, hp, -, hrules⟩
    obtain rfl : 0.5 = x := Option.some.inj hx
    obtain rfl := List.mem_singleton.mp hp
    revert hrules
    decide +kernel
  refine ⟨_, parse_zeroPower 0, hparts, ?_⟩
  exact (getElem?_evalList ⟨(zeroPower 0).tree, _, _⟩ [0.5] 0).2.1 hparts

/-- In `(-0)^x` a power parts at `0.5`: what is a positive zero at many points is a negative zero at
one. -/
theorem not_forall_evalList_eq_eval :
    ¬∀ (text : String) (e : Expression), Expression.parse text = .ok e →
      ∀ (xs : List Float) (i : Nat), (e.evalList xs)[i]? = xs[i]?.map e.eval := by
  intro h
  have hzero := h "(-0)^x" _ (parse_zeroPower 1) [0.5] 0
  revert hzero
  decide +kernel

end Zeros

end Expression

end ExprSampler
