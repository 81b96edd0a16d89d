import ExprSampler.Proofs.Evaluation.Pointwise
import ExprSampler.Proofs.Grammar.Completeness
import ExprSampler.Proofs.Grammar.Numerals

/-!
# Trees of the grammar

The types admit more trees than the grammar makes. A tree is *shaped* if every node stands where the
grammar would put it and every number is one that can be written. The trees of derivations are
shaped, and a shaped tree is that of a derivation whose text is the canonical text of the tree: the
derivation that writes every multiplication sign and at most one minus sign.
-/

namespace ExprSampler

namespace Grammar

/-! ## Shapes -/

/-- The trees, or lists of operands, that texts of a rule stand for. -/
inductive Shaped : (s : Symbol) → s.Value → Prop
  | sum {first : Node} {rest : List (AddOp × Node)} (h : Shaped .term first)
      (h' : Shaped .addends rest) : Shaped .sum (Node.sum first rest)
  | noAddend : Shaped .addends []
  | addend {operand : Node} {rest : List (AddOp × Node)} (op : AddOp) (h : Shaped .term operand)
      (h' : Shaped .addends rest) : Shaped .addends ((op, operand) :: rest)
  | term {first : Node} {rest : List (MulOp × Node)} (h : Shaped .factor first)
      (h' : Shaped .multiplicands rest) : Shaped .term (Node.product first rest)
  | noFactor : Shaped .multiplicands []
  | multiplicand {operand : Node} {rest : List (MulOp × Node)} (op : MulOp)
      (h : Shaped .factor operand) (h' : Shaped .multiplicands rest) :
      Shaped .multiplicands ((op, operand) :: rest)
  | factor {inner : Node} (negate : Bool) (h : Shaped .base inner) :
      Shaped .factor (Node.signed negate inner)
  | plain {base : Node} (h : Shaped .primary base) : Shaped .base (Node.power base none)
  | raised {base exponent : Node} (h : Shaped .primary base) (h' : Shaped .factor exponent) :
      Shaped .base (Node.power base (some exponent))
  | var : Shaped .primary Node.var
  | number {v : Float} (h : Binary64.Unsigned v) : Shaped .primary (Node.number v)
  | group {inner : Node} (h : Shaped .sum inner) : Shaped .primary inner

theorem Derivation.shaped_tree {s : Symbol} (d : Derivation s) : d.Proper → Shaped s d.tree := by
  induction d with
  | sum first rest ih ih' => exact fun h ↦ .sum (ih h.1) (ih' h.2)
  | noAddend => exact fun _ ↦ .noAddend
  | addend op operand rest ih ih' => exact fun h ↦ .addend op (ih h.1) (ih' h.2)
  | term first rest ih ih' => exact fun h ↦ .term (ih h.1) (ih' h.2)
  | noFactor => exact fun _ ↦ .noFactor
  | multiplicand op operand rest ih ih' => exact fun h ↦ .multiplicand op (ih h.1) (ih' h.2)
  | juxtaposed operand rest ih ih' => exact fun h ↦ .multiplicand .times (ih h.1) (ih' h.2.2)
  | factor signs operand ih => exact fun h ↦ .factor _ (ih h)
  | plain operand ih => exact fun h ↦ .plain (ih h)
  | raised operand exponent ih ih' => exact fun h ↦ .raised (ih h.1) (ih' h.2)
  | letter name => exact fun _ ↦ .var
  | number whole fraction =>
    exact fun _ ↦ .number (Binary64.unsigned_ofBits (Decimal.toNumber_le_infinity _))
  | group inner ih => exact fun h ↦ .group (ih h)

/-! ## Canonical derivations -/

/-- The canonical text of what a text of the rule stands for. -/
def Symbol.chars (name : List Char) : (s : Symbol) → s.Value → List Char
  | .addends, rest => Node.termsChars name rest
  | .multiplicands, rest => Node.factorsChars name rest
  | .primary, node => Node.asBase node (Node.chars name node)
  | .sum, node | .term, node | .factor, node | .base, node => Node.chars name node

theorem Shaped.isSum {node : Node} (h : Shaped .sum node) : node.isSum = true := by
  cases h
  rfl

/-- Every shaped tree has a derivation whose text is the canonical text of the tree. -/
theorem Shaped.exists_derivation {v : Char} (hv : v.isAlpha = true) {s : Symbol} {t : s.Value}
    (h : Shaped s t) :
    ∃ d : Derivation s, d.Proper ∧ d.tree = t ∧ d.text = s.chars [v] t ∧
      Uniform (some (String.singleton v)) d.text := by
  induction h with
  | sum h h' ih ih' =>
    obtain ⟨d, proper, rfl, htext, uniform⟩ := ih
    obtain ⟨d', proper', rfl, htext', uniform'⟩ := ih'
    exact ⟨.sum d d', ⟨proper, proper'⟩, rfl, congrArg₂ (· ++ ·) htext htext',
      uniform_append.mpr ⟨uniform, uniform'⟩⟩
  | noAddend => exact ⟨.noAddend, trivial, rfl, rfl, uniform_nil _⟩
  | addend op h h' ih ih' =>
    obtain ⟨d, proper, rfl, htext, uniform⟩ := ih
    obtain ⟨d', proper', rfl, htext', uniform'⟩ := ih'
    exact ⟨.addend op d d', ⟨proper, proper'⟩, rfl,
      congrArg (op.sign :: ·) (congrArg₂ (· ++ ·) htext htext'),
      (uniform_cons op.isAlpha_sign).mpr (uniform_append.mpr ⟨uniform, uniform'⟩)⟩
  | term h h' ih ih' =>
    obtain ⟨d, proper, rfl, htext, uniform⟩ := ih
    obtain ⟨d', proper', rfl, htext', uniform'⟩ := ih'
    exact ⟨.term d d', ⟨proper, proper'⟩, rfl, congrArg₂ (· ++ ·) htext htext',
      uniform_append.mpr ⟨uniform, uniform'⟩⟩
  | noFactor => exact ⟨.noFactor, trivial, rfl, rfl, uniform_nil _⟩
  | multiplicand op h h' ih ih' =>
    obtain ⟨d, proper, rfl, htext, uniform⟩ := ih
    obtain ⟨d', proper', rfl, htext', uniform'⟩ := ih'
    exact ⟨.multiplicand op d d', ⟨proper, proper'⟩, rfl,
      congrArg (op.sign :: ·) (congrArg₂ (· ++ ·) htext htext'),
      (uniform_cons op.isAlpha_sign).mpr (uniform_append.mpr ⟨uniform, uniform'⟩)⟩
  | factor negate h ih =>
    obtain ⟨d, proper, rfl, htext, uniform⟩ := ih
    -- One minus sign stands for an odd run of them, none for an even one.
    cases negate with
    | false => exact ⟨.factor 0 d, proper, rfl, htext, uniform⟩
    | true =>
      exact ⟨.factor 1 d, proper, rfl, congrArg ('-' :: ·) htext, (uniform_cons rfl).mpr uniform⟩
  | plain h ih =>
    obtain ⟨d, proper, rfl, htext, uniform⟩ := ih
    exact ⟨.plain d, proper, rfl, htext, uniform⟩
  | raised h h' ih ih' =>
    obtain ⟨d, proper, rfl, htext, uniform⟩ := ih
    obtain ⟨d', proper', rfl, htext', uniform'⟩ := ih'
    exact ⟨.raised d d', ⟨proper, proper'⟩, rfl,
      congrArg₂ (· ++ ·) htext (congrArg ('^' :: ·) htext'),
      uniform_append.mpr ⟨uniform, (uniform_cons rfl).mpr uniform'⟩⟩
  | var => exact ⟨.letter v, hv, rfl, rfl, uniform_singleton fun _ h ↦ (Option.some.inj h).symm⟩
  | @number value h =>
    obtain ⟨whole, fraction, hwhole, hfraction, htext, hnumber⟩ := isNumeral_numberChars h
    have htree : (Derivation.number whole fraction).tree = Node.number value := by
      rw [Derivation.tree, Decimal.toFloat, hnumber, Binary64.ofBits_number h]
    exact ⟨.number whole fraction, ⟨hwhole, hfraction⟩, htree, htext.symm,
      uniform_of_noLetters (Derivation.noLetters_number ⟨hwhole, hfraction⟩)⟩
  | group h ih =>
    obtain ⟨d, proper, rfl, htext, uniform⟩ := ih
    refine ⟨.group d, proper, rfl, ?_, (uniform_cons rfl).mpr (uniform_append.mpr
      ⟨uniform, uniform_of_noLetters (noLetters_singleton rfl)⟩)⟩
    rw [Derivation.text, htext]
    exact (if_pos h.isSum).symm

/-! ## Letters -/

/-- Whether the variable occurs in what a text of the rule stands for. -/
def Symbol.hasVar : (s : Symbol) → s.Value → Bool
  | .addends, rest => Node.termsHaveVar rest
  | .multiplicands, rest => Node.factorsHaveVar rest
  | .sum, node | .term, node | .factor, node | .base, node | .primary, node => Node.hasVar node

theorem any_of_noLetters {cs : List Char} (h : NoLetters cs) : cs.any Char.isAlpha = false :=
  List.any_eq_false.mpr fun c hc ↦ by rw [h c hc]; exact Bool.false_ne_true

/-- A text has a letter exactly if the variable occurs in its tree. -/
theorem Derivation.any_isAlpha_text {s : Symbol} (d : Derivation s) :
    d.Proper → d.text.any Char.isAlpha = s.hasVar d.tree := by
  induction d with
  | sum first rest ih ih' =>
    intro h
    rw [text, List.any_append, ih h.1, ih' h.2]
    rfl
  | noAddend => exact fun _ ↦ rfl
  | addend op operand rest ih ih' =>
    intro h
    rw [text, List.any_cons, List.any_append, op.isAlpha_sign, ih h.1, ih' h.2]
    rfl
  | term first rest ih ih' =>
    intro h
    rw [text, List.any_append, ih h.1, ih' h.2]
    rfl
  | noFactor => exact fun _ ↦ rfl
  | multiplicand op operand rest ih ih' =>
    intro h
    rw [text, List.any_cons, List.any_append, op.isAlpha_sign, ih h.1, ih' h.2]
    rfl
  | juxtaposed operand rest ih ih' =>
    intro h
    rw [text, List.any_append, ih h.1, ih' h.2.2]
    rfl
  | factor signs operand ih =>
    intro h
    have hsigns : (List.replicate signs '-').any Char.isAlpha = false :=
      any_of_noLetters fun c hc ↦ by rw [List.eq_of_mem_replicate hc]; rfl
    rw [text, List.any_append, hsigns, ih h]
    rfl
  | plain operand ih => exact fun h ↦ ih h
  | raised operand exponent ih ih' =>
    intro h
    rw [text, List.any_append, List.any_cons, ih h.1, ih' h.2]
    rfl
  | letter name =>
    intro h
    have h : name.isAlpha = true := h
    rw [text, List.any_cons, h]
    rfl
  | number whole fraction => exact fun h ↦ any_of_noLetters (noLetters_number h)
  | group inner ih =>
    intro h
    have hclosing : [')'].any Char.isAlpha = false := rfl
    rw [text, List.any_cons, List.any_append, ih h, hclosing, Bool.or_false]
    rfl

end Grammar

end ExprSampler
