import ExprSampler.Proofs.Grammar.Texts
import Mathlib.Logic.Function.Iterate

/-!
# Redundant parentheses

Parentheses around a whole text change what is read, but nothing that can be observed of it: the
tree gets four more levels on top, a sum of one product of one signed power, and each of them passes
its only operand on as it is. That goes for every arithmetic, hence for one point and for many; and
as the old tree is a sum, the canonical text puts the parentheses back.

One pair is the step; any number of pairs is the step repeated.
-/

namespace ExprSampler

/-- The text in a pair of parentheses. -/
def parenthesize (text : String) : String :=
  String.ofList ('(' :: (text.toList ++ [')']))

theorem toList_parenthesize (text : String) :
    (parenthesize text).toList = '(' :: (text.toList ++ [')']) :=
  String.toList_ofList

theorem toList_iterate_parenthesize (n : Nat) (text : String) :
    (parenthesize^[n] text).toList
      = List.replicate n '(' ++ text.toList ++ List.replicate n ')' := by
  induction n with
  | zero => simp
  | succ n ih =>
    rw [Function.iterate_succ_apply', toList_parenthesize, ih, List.replicate_succ,
      List.replicate_succ']
    simp only [List.cons_append, List.append_assoc]

theorem stripBlanks_parenthesize (text : String) :
    Text.stripBlanks (parenthesize text) = parenthesize (Text.stripBlanks text) := by
  have hopen : Text.isBlank '(' = false := by decide
  have hclose : Text.isBlank ')' = false := by decide
  rw [← String.toList_inj, Text.toList_stripBlanks, toList_parenthesize, toList_parenthesize,
    Text.toList_stripBlanks]
  simp [List.filter_append, hopen, hclose]

/-! ## Trees of groups -/

namespace Node

/-- What is read where the tree stands in parentheses and nothing else does. -/
def grouped (t : Node) : Node :=
  .sum (.product (.signed false (.power t none)) []) []

/-- A group has the value of what is in it, in any arithmetic. -/
theorem evalBy_grouped {α : Type} (A : Arithmetic α) (x : α) (t : Node) :
    t.grouped.evalBy A x = t.evalBy A x := by
  simp only [grouped, evalBy, productBy, sumBy, Bool.false_eq_true, if_false]

theorem eval_grouped (t : Node) (x : Float) : t.grouped.eval x = t.eval x :=
  evalBy_grouped .atPoint x t

theorem evalList_grouped (t : Node) (xs : List Float) : t.grouped.evalList xs = t.evalList xs := by
  rw [evalList, evalBy_grouped, evalList]

theorem evalGrid_grouped (t : Node) (xs : Grid) : t.grouped.evalGrid xs = t.evalGrid xs := by
  rw [evalGrid, evalBy_grouped, evalGrid]

theorem canonical_grouped {t : Node} (h : t.isSum = true) (bound : Option String) :
    t.grouped.canonical bound = parenthesize (t.canonical bound) := by
  rw [canonical, canonical, parenthesize, String.toList_ofList]
  simp only [grouped, chars, asBase, h, if_true, Bool.false_eq_true, if_false, factorsChars,
    termsChars, List.append_nil, List.cons_append]

end Node

/-! ## Reading groups -/

namespace Expression

/-- The expression whose text is that of another one in parentheses. -/
def grouped (e : Expression) : Expression :=
  ⟨e.root.grouped, e.input, parenthesize e.source⟩

end Expression

namespace Grammar

namespace Derivation

/-- The derivation of a group that stands alone. -/
def alone (d : Derivation .sum) : Derivation .sum :=
  .sum (.term (.factor 0 (.plain (.group d))) .noFactor) .noAddend

theorem text_alone (d : Derivation .sum) : d.alone.text = '(' :: (d.text ++ [')']) := by
  simp only [alone, text, List.replicate_zero, List.nil_append, List.append_nil]

theorem proper_alone {d : Derivation .sum} (h : d.Proper) : d.alone.Proper :=
  ⟨⟨h, trivial⟩, trivial⟩

theorem isSum_tree (d : Derivation .sum) : Node.isSum d.tree = true := by
  cases d
  rfl

end Derivation

theorem noLetters_close : NoLetters [')'] :=
  noLetters_singleton rfl

theorem uniform_parenthesized {bound : Option String} {cs : List Char} (h : Uniform bound cs) :
    Uniform bound ('(' :: (cs ++ [')'])) :=
  (uniform_cons rfl).mpr (uniform_append.mpr ⟨h, uniform_of_noLetters noLetters_close⟩)

theorem nameAfter_parenthesized (bound : Option String) (cs : List Char) :
    nameAfter bound ('(' :: (cs ++ [')'])) = nameAfter bound cs := by
  rw [nameAfter_cons rfl, nameAfter_append, nameAfter_of_noLetters noLetters_close]

variable {text : String} {e : Expression}

theorem isSum_of_parse (h : Expression.parse text = .ok e) : e.root.isSum = true := by
  obtain ⟨d, -, -, -, rfl⟩ := exists_derivation_of_parse h
  exact d.isSum_tree

/-- One pair of parentheses: the text is read as a group of what it was read as before. -/
theorem parse_parenthesize (h : Expression.parse text = .ok e) :
    Expression.parse (parenthesize text) = .ok e.grouped := by
  obtain ⟨d, proper, htext, uniform, rfl⟩ := exists_derivation_of_parse h
  have hstrip := stripBlanks_parenthesize text
  have hchars : (Text.stripBlanks (parenthesize text)).toList = '(' :: (d.text ++ [')']) := by
    rw [hstrip, toList_parenthesize, htext]
  have hread : parseTree none (Text.stripBlanks (parenthesize text)) = _ :=
    parseTree_of_derivation (Derivation.proper_alone proper) (d.text_alone.trans hchars.symm)
      (hchars ▸ uniform_parenthesized uniform)
  rw [hchars, nameAfter_parenthesized] at hread
  rw [parse_of_parseTree hread, hstrip]
  rfl

theorem parse_iterate_parenthesize (h : Expression.parse text = .ok e) (n : Nat) :
    Expression.parse (parenthesize^[n] text) = .ok (Expression.grouped^[n] e) := by
  induction n with
  | zero => exact h
  | succ n ih =>
    rw [Function.iterate_succ_apply', Function.iterate_succ_apply']
    exact parse_parenthesize ih

/-- What cannot be observed of one group cannot be observed of many inside each other. -/
theorem iterate_grouped_eq {β : Type} (f : Expression → β) (h : ∀ e, f e.grouped = f e)
    (e : Expression) (n : Nat) : f (Expression.grouped^[n] e) = f e := by
  induction n with
  | zero => rfl
  | succ n ih => rw [Function.iterate_succ_apply', h, ih]

theorem canonical_iterate_grouped (h : e.root.isSum = true) (n : Nat) :
    (Expression.grouped^[n] e).canonical = parenthesize^[n] e.canonical := by
  induction n with
  | zero => rfl
  | succ n ih =>
    have hsum : (Expression.grouped^[n] e).root.isSum = true := by
      cases n with
      | zero => exact h
      | succ n =>
        rw [Function.iterate_succ_apply']
        rfl
    rw [Function.iterate_succ_apply', Function.iterate_succ_apply', ← ih]
    exact Node.canonical_grouped hsum _

/-- **Parentheses around an accepted text change nothing.** Any number of pairs is accepted, in the
same variable and with the same value at every point, at every list of points and on every grid of
points; and the canonical text stands in as many pairs. -/
theorem parse_in_parentheses (h : Expression.parse text = .ok e) (n : Nat) :
    ∃ e' : Expression,
      Expression.parse (String.ofList
        (List.replicate n '(' ++ text.toList ++ List.replicate n ')')) = .ok e' ∧
      e'.input = e.input ∧
      (∀ x : Float, e'.eval x = e.eval x) ∧
      (∀ xs : List Float, e'.evalList xs = e.evalList xs) ∧
      (∀ xs : Grid, e'.root.evalGrid xs = e.root.evalGrid xs) ∧
      e'.canonical.toList
        = List.replicate n '(' ++ e.canonical.toList ++ List.replicate n ')' := by
  have hparse := parse_iterate_parenthesize h n
  have hcanonical := canonical_iterate_grouped (isSum_of_parse h) n
  rw [← String.ofList_toList (s := parenthesize^[n] text), toList_iterate_parenthesize] at hparse
  refine ⟨_, hparse, ?_, fun x ↦ ?_, fun xs ↦ ?_, fun xs ↦ ?_, ?_⟩
  · exact iterate_grouped_eq Expression.input (fun _ ↦ rfl) e n
  · exact iterate_grouped_eq (·.eval x) (fun e ↦ e.root.eval_grouped x) e n
  · exact iterate_grouped_eq (·.evalList xs) (fun e ↦ e.root.evalList_grouped xs) e n
  · exact iterate_grouped_eq (·.root.evalGrid xs) (fun e ↦ e.root.evalGrid_grouped xs) e n
  · rw [hcanonical, toList_iterate_parenthesize]

/-- A text with a blank for a sign of multiplication, in three pairs. -/
theorem parse_in_parentheses_of_product :
    ∃ e' : Expression, Expression.parse "(((-x x)))" = .ok e' ∧ e'.input = some "x" ∧
      e'.canonical.toList = "(((-x*x)))".toList := by
  have h : Expression.parse "-x x" = _ :=
    parse_of_parseTree (show parseTree none _ = (.ok _, some "x") from rfl)
  obtain ⟨e', hparse, hinput, -, -, -, hcanonical⟩ := parse_in_parentheses h 3
  exact ⟨e', hparse, hinput, hcanonical⟩

end Grammar

end ExprSampler
