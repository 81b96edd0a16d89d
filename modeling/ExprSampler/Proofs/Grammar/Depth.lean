import ExprSampler.Proofs.Grammar.Completeness
import ExprSampler.Proofs.Grammar.Texts

/-!
# The depth of trees

A text of one letter already stands for a tree of five levels, since every level of the grammar is
kept. Beyond that a text pays for what it nests: a group goes down four levels and has two
parentheses, an exponent goes down two and has its caret and a base. So the depth is at most twice
the length and three more, and parentheses around a letter reach that.

Each rule has its own bound, which is lower by one for each level of the grammar below sums.
-/

namespace ExprSampler

namespace Node

mutual

/-- The number of nodes on the longest way from a node to a leaf. -/
def depth : Node → Nat
  | .number _ => 1
  | .var => 1
  | .power base none => base.depth + 1
  | .power base (some exponent) => max base.depth exponent.depth + 1
  | .signed _ inner => inner.depth + 1
  | .product first rest => max first.depth (factorsDepth rest) + 1
  | .sum first rest => max first.depth (termsDepth rest) + 1

/-- The depth of the deepest factor. -/
def factorsDepth : List (MulOp × Node) → Nat
  | [] => 0
  | (_, factor) :: rest => max factor.depth (factorsDepth rest)

/-- The depth of the deepest term. -/
def termsDepth : List (AddOp × Node) → Nat
  | [] => 0
  | (_, term) :: rest => max term.depth (termsDepth rest)

end

end Node

namespace Grammar

/-- The depth of what a text of the rule stands for. -/
def Symbol.depth : (s : Symbol) → s.Value → Nat
  | .addends, rest => Node.termsDepth rest
  | .multiplicands, rest => Node.factorsDepth rest
  | .sum, node | .term, node | .factor, node | .base, node | .primary, node => Node.depth node

/-- The depth of a tree is bounded by the length of the text, and the closer the rule is to letters
and numbers, the more tightly. -/
theorem Derivation.depth_tree_le {s : Symbol} (d : Derivation s) :
    d.Proper → s.depth d.tree + 3 ≤ 2 * d.text.length + s.level := by
  induction d with
  | sum first rest ih ih' =>
    intro h
    have hfirst := ih h.1
    have hrest := ih' h.2
    simp only [tree, text, Symbol.depth, Node.depth, Symbol.level, List.length_append]
      at hfirst hrest ⊢
    omega
  | noAddend =>
    intro _
    decide
  | addend op operand rest ih ih' =>
    intro h
    have hoperand := ih h.1
    have hrest := ih' h.2
    simp only [tree, text, Symbol.depth, Node.termsDepth, Symbol.level, List.length_append,
      List.length_cons] at hoperand hrest ⊢
    omega
  | term first rest ih ih' =>
    intro h
    have hfirst := ih h.1
    have hrest := ih' h.2
    simp only [tree, text, Symbol.depth, Node.depth, Symbol.level, List.length_append]
      at hfirst hrest ⊢
    omega
  | noFactor =>
    intro _
    decide
  | multiplicand op operand rest ih ih' =>
    intro h
    have hoperand := ih h.1
    have hrest := ih' h.2
    simp only [tree, text, Symbol.depth, Node.factorsDepth, Symbol.level, List.length_append,
      List.length_cons] at hoperand hrest ⊢
    omega
  | juxtaposed operand rest ih ih' =>
    intro h
    have hoperand := ih h.1
    have hrest := ih' h.2.2
    simp only [tree, text, Symbol.depth, Node.factorsDepth, Symbol.level, List.length_append]
      at hoperand hrest ⊢
    omega
  | factor signs operand ih =>
    intro h
    have hoperand := ih h
    simp only [tree, text, Symbol.depth, Node.depth, Symbol.level, List.length_append] at hoperand ⊢
    omega
  | plain operand ih =>
    intro h
    have hoperand := ih h
    simp only [tree, text, Symbol.depth, Node.depth, Symbol.level] at hoperand ⊢
    omega
  | raised operand exponent ih ih' =>
    -- The caret pays for the way from an exponent back to a factor.
    intro h
    have hoperand := ih h.1
    have hexponent := ih' h.2
    simp only [tree, text, Symbol.depth, Node.depth, Symbol.level, List.length_append,
      List.length_cons] at hoperand hexponent ⊢
    omega
  | letter name =>
    intro _
    simp only [tree, text, Symbol.depth, Node.depth, Symbol.level, List.length_singleton]
    omega
  | number whole fraction =>
    intro h
    have hwhole : 0 < whole.length := List.length_pos_iff.mpr h.1.1
    simp only [tree, text, Symbol.depth, Node.depth, Symbol.level, List.length_append]
    omega
  | group inner ih =>
    -- The two parentheses pay for the way from a group back to a sum.
    intro h
    have hinner := ih h
    simp only [tree, text, Symbol.depth, Symbol.level, List.length_append, List.length_cons,
      List.length_nil] at hinner ⊢
    omega

theorem Derivation.text_ne_nil {d : Derivation .sum} (h : d.Proper) : d.text ≠ [] := by
  match d with
  | .sum (.term first rest) rest' =>
    obtain ⟨c, cs, hcs⟩ := exists_cons_of_factor h.1.1
    rw [text, text, hcs]
    exact List.cons_ne_nil _ _

/-- The tree of an accepted text, which is never empty, is at most twice as deep as the text is
long, and three more. -/
theorem depth_root_le {text : String} {e : Expression} (h : Expression.parse text = .ok e) :
    0 < e.source.length ∧ e.root.depth ≤ 2 * e.source.length + 3 := by
  obtain ⟨d, proper, htext, -, rfl⟩ := exists_derivation_of_parse h
  have hdepth : d.tree.depth + 3 ≤ 2 * d.text.length + 6 := d.depth_tree_le proper
  have hpos : 0 < d.text.length := List.length_pos_iff.mpr (Derivation.text_ne_nil proper)
  have hlength : d.text.length = (Text.stripBlanks text).length := by
    rw [htext, String.length_toList]
  refine ⟨hlength ▸ hpos, ?_⟩
  dsimp only
  omega

end Grammar

end ExprSampler
