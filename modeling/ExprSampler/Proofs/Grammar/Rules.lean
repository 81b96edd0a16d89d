import ExprSampler.Proofs.Grammar.Derivation
import ExprSampler.Proofs.Grammar.Naming
import ExprSampler.Proofs.Parser.Steady

/-!
# The parsers of the rules

One parser for each rule of the grammar. All of them are steady, and the rounds of the two
repetitions each take a character.
-/

namespace ExprSampler

open ExprSampler.Parser

namespace CharClass

/-! ## Signs as classes -/

theorem contains_literal_singleton (sign c : Char) :
    (literal (String.singleton sign)).contains c = (c == sign) := by
  rw [Bool.eq_iff_iff, contains_literal_iff, beq_iff_eq]
  simp [eq_comm]

@[simp] theorem contains_plus (c : Char) : plus.contains c = (c == '+') :=
  contains_literal_singleton '+' c

@[simp] theorem contains_minus (c : Char) : minus.contains c = (c == '-') :=
  contains_literal_singleton '-' c

@[simp] theorem contains_times (c : Char) : times.contains c = (c == '*') :=
  contains_literal_singleton '*' c

@[simp] theorem contains_divide (c : Char) : divide.contains c = (c == '/') :=
  contains_literal_singleton '/' c

@[simp] theorem contains_caret (c : Char) : caret.contains c = (c == '^') :=
  contains_literal_singleton '^' c

@[simp] theorem contains_openParen (c : Char) : openParen.contains c = (c == '(') :=
  contains_literal_singleton '(' c

@[simp] theorem contains_closeParen (c : Char) : closeParen.contains c = (c == ')') :=
  contains_literal_singleton ')' c

@[simp] theorem contains_decimalPoint (c : Char) : decimalPoint.contains c = (c == '.') :=
  contains_literal_singleton '.' c

theorem matchesNext_eq_false {k : CharClass} {next : Option Char}
    (h : ∀ c ∈ next, k.contains c = false) : k.matchesNext next = false := by
  cases next with
  | none => rfl
  | some c => exact h c rfl

end CharClass

namespace Grammar

/-- The parser of a rule, under a nesting limit for the rules inside it. -/
def Symbol.parser : (s : Symbol) → Nat → Parser s.Value
  | .sum, n => Grammar.sum n
  | .addends, n => many (addend (Grammar.term n))
  | .term, n => Grammar.term n
  | .multiplicands, n => many (multiplicand (Grammar.factor n))
  | .factor, n => Grammar.factor n
  | .base, n => Grammar.base n
  | .primary, n => Grammar.primary n

/-! ## Steadiness -/

theorem steady_addend {term : Parser Node} (h : Steady term) : Steady (addend term) := by
  refine (Steady.skip? _).bind fun plus ↦ ?_
  cases plus with
  | true => exact h.bind fun t ↦ Steady.pure _
  | false =>
    refine (Steady.skip? _).bind fun minus ↦ ?_
    cases minus with
    | true => exact h.bind fun t ↦ Steady.pure _
    | false => exact Steady.pure _

theorem steady_multiplies : Steady multiplies := by
  refine (Steady.skip? _).bind fun times ↦ ?_
  cases times with
  | true => exact Steady.pure _
  | false => exact Steady.nextIs _

theorem steady_multiplicand {factor : Parser Node} (h : Steady factor) :
    Steady (multiplicand factor) := by
  refine steady_multiplies.bind fun times ↦ ?_
  cases times with
  | true => exact h.bind fun f ↦ Steady.pure _
  | false =>
    refine (Steady.skip? _).bind fun divide ↦ ?_
    cases divide with
    | true => exact h.bind fun f ↦ Steady.pure _
    | false => exact Steady.pure _

theorem steady_letterOfVariable : Steady letterOfVariable := by
  refine Steady.getName.bind fun name ↦ ?_
  cases name with
  | none =>
    exact (Steady.require _ _).bind fun letter ↦ (Steady.bindName _).bind fun _ ↦ Steady.pure _
  | some name => exact (Steady.requireSkip _ _).bind fun _ ↦ Steady.pure _

theorem steady_digits : Steady digits :=
  (Steady.require _ _).bind fun _ ↦ (Steady.takeAll _).bind fun _ ↦ Steady.pure _

theorem steady_numeral : Steady numeral := by
  refine steady_digits.bind fun whole ↦ (Steady.skip? _).bind fun point ↦ ?_
  cases point with
  | true => exact steady_digits.bind fun fraction ↦ Steady.pure _
  | false => exact Steady.pure _

theorem steady_leaf {p : Parser Node} (h : Steady p) : ∀ n : Nat, Steady (leaf p n)
  | 0 => Steady.tooDeep
  | _ + 1 => h

/-! ## One more operand -/

section Operands

variable {operand : Parser Node} {bound : Option String} {i : Nat} {cs r : List Char}

theorem addend_of_sign (op : AddOp) :
    addend operand bound ⟨i, op.sign :: r⟩
      = (do let t ← operand; pure (some (op, t)) : Parser (Option (AddOp × Node)))
          bound ⟨i + 1, r⟩ := by
  cases op with
  | plus =>
    rw [addend, bind_of_done (skip?_of_matches (by simp [AddOp.sign]) _ _ _)]
    rfl
  | minus =>
    rw [addend, bind_of_done (skip?_of_not_matches (by simp [AddOp.sign]) _ _)]
    rw [if_neg Bool.false_ne_true, bind_of_done (skip?_of_matches (by simp [AddOp.sign]) _ _ _)]
    rfl

theorem addend_of_no_sign (h : ∀ c ∈ cs.head?, ∀ op : AddOp, c ≠ op.sign) :
    addend operand bound ⟨i, cs⟩ = (.done none ⟨i, cs⟩ none, bound) := by
  have hplus : CharClass.plus.matchesNext cs.head? = false :=
    CharClass.matchesNext_eq_false fun c hc ↦ by simpa [AddOp.sign] using h c hc .plus
  have hminus : CharClass.minus.matchesNext cs.head? = false :=
    CharClass.matchesNext_eq_false fun c hc ↦ by simpa [AddOp.sign] using h c hc .minus
  rw [addend, bind_of_done (skip?_of_not_matches hplus _ _), if_neg Bool.false_ne_true,
    bind_of_done (skip?_of_not_matches hminus _ _)]
  rfl

theorem next_cases (P : Char → Prop) (cs : List Char) :
    (∃ (c : Char) (r : List Char), cs = c :: r ∧ P c) ∨ ∀ c ∈ cs.head?, ¬P c := by
  cases cs with
  | nil => exact .inr nofun
  | cons c r =>
    by_cases h : P c
    · exact .inl ⟨c, r, rfl, h⟩
    · refine .inr fun c' hc' ↦ ?_
      rwa [← Option.some.inj hc']

theorem addend_cases (cs : List Char) :
    (∃ (op : AddOp) (r : List Char), cs = op.sign :: r)
      ∨ ∀ c ∈ cs.head?, ∀ op : AddOp, c ≠ op.sign := by
  obtain ⟨c, r, rfl, op, rfl⟩ | hno := next_cases (fun c ↦ ∃ op : AddOp, c = op.sign) cs
  · exact .inl ⟨op, r, rfl⟩
  · exact .inr fun c hc op hop ↦ hno c hc ⟨op, hop⟩

theorem multiplies_of_not_times (h : ∀ c ∈ cs.head?, c ≠ '*') :
    multiplies bound ⟨i, cs⟩ = (.done (opensFactor cs) ⟨i, cs⟩ none, bound) := by
  have htimes : CharClass.times.matchesNext cs.head? = false :=
    CharClass.matchesNext_eq_false fun c hc ↦ by simpa using h c hc
  rw [multiplies, bind_of_done (skip?_of_not_matches htimes _ _), if_neg Bool.false_ne_true,
    nextIs_run]
  cases cs with
  | nil => rfl
  | cons c r => simp [opensFactor]

theorem multiplicand_of_sign (op : MulOp) :
    multiplicand operand bound ⟨i, op.sign :: r⟩
      = (do let f ← operand; pure (some (op, f)) : Parser (Option (MulOp × Node)))
          bound ⟨i + 1, r⟩ := by
  rcases op with _ | _
  · have htimes : multiplies bound ⟨i, MulOp.times.sign :: r⟩
        = (.done true ⟨i + 1, r⟩ none, bound) := by
      rw [multiplies, bind_of_done (skip?_of_matches (by simp [MulOp.sign]) _ _ _)]
      rfl
    rw [multiplicand, bind_of_done htimes]
    rfl
  · have hnone : multiplies bound ⟨i, '/' :: r⟩ = (.done false ⟨i, '/' :: r⟩ none, bound) :=
      multiplies_of_not_times (by simp)
    rw [MulOp.sign, multiplicand, bind_of_done hnone, if_neg Bool.false_ne_true,
      bind_of_done (skip?_of_matches (by simp) _ _ _)]
    rfl

theorem multiplicand_of_opensFactor (h : opensFactor cs = true) :
    multiplicand operand bound ⟨i, cs⟩
      = (do let f ← operand; pure (some (.times, f)) : Parser (Option (MulOp × Node)))
          bound ⟨i, cs⟩ := by
  have hopen : multiplies bound ⟨i, cs⟩ = (.done true ⟨i, cs⟩ none, bound) := by
    rw [multiplies_of_not_times, h]
    obtain ⟨c, rest, rfl, hc, -⟩ := exists_of_opensFactor h
    rintro c' hc' rfl
    obtain rfl := Option.some.inj hc'
    exact absurd hc (by decide)
  rw [multiplicand, bind_of_done hopen]
  rfl

theorem multiplicand_of_no_sign (h : ∀ c ∈ cs.head?, ∀ op : MulOp, c ≠ op.sign)
    (hopen : opensFactor cs = false) :
    multiplicand operand bound ⟨i, cs⟩ = (.done none ⟨i, cs⟩ none, bound) := by
  have hnone : multiplies bound ⟨i, cs⟩ = (.done false ⟨i, cs⟩ none, bound) := by
    rw [multiplies_of_not_times fun c hc ↦ h c hc .times, hopen]
  have hover : CharClass.divide.matchesNext cs.head? = false :=
    CharClass.matchesNext_eq_false fun c hc ↦ by simpa [MulOp.sign] using h c hc MulOp.over
  rw [multiplicand, bind_of_done hnone, if_neg Bool.false_ne_true,
    bind_of_done (skip?_of_not_matches hover _ _)]
  rfl

/-- A text goes on with a further factor behind a sign, with one without, or with none. -/
theorem multiplicand_cases (cs : List Char) :
    (∃ (op : MulOp) (r : List Char), cs = op.sign :: r) ∨ opensFactor cs = true
      ∨ (∀ c ∈ cs.head?, ∀ op : MulOp, c ≠ op.sign) ∧ opensFactor cs = false := by
  obtain ⟨c, r, rfl, op, rfl⟩ | hno := next_cases (fun c ↦ ∃ op : MulOp, c = op.sign) cs
  · exact .inl ⟨op, r, rfl⟩
  · cases hopen : opensFactor cs with
    | true => exact .inr (.inl rfl)
    | false => exact .inr (.inr ⟨fun c hc op hop ↦ hno c hc ⟨op, hop⟩, rfl⟩)

end Operands

/-! ## Rounds take characters -/

theorem progresses_addend {term : Parser Node} (h : Steady term) : Progresses (addend term) where
  atEnd bound i := addend_of_no_sign (by simp)
  shortens := by
    rintro bound bound' ⟨i, cs⟩ c' a missed hrun
    obtain ⟨op, r, rfl⟩ | hno := addend_cases cs
    · rw [addend_of_sign] at hrun
      exact Nat.lt_succ_of_le ((h.bind fun t ↦ Steady.pure _).rest_length_le hrun)
    · rw [addend_of_no_sign hno] at hrun
      cases hrun

theorem progresses_multiplicand {factor : Parser Node} (h : Steady factor)
    (hadv : Advances factor) : Progresses (multiplicand factor) where
  atEnd bound i := multiplicand_of_no_sign (by simp) rfl
  shortens := by
    rintro bound bound' ⟨i, cs⟩ c' a missed hrun
    obtain ⟨op, r, rfl⟩ | hopen | ⟨hno, hopen⟩ := multiplicand_cases cs
    · rw [multiplicand_of_sign] at hrun
      exact Nat.lt_succ_of_le ((h.bind fun t ↦ Steady.pure _).rest_length_le hrun)
    · -- With the sign left out, it is the factor that takes a character.
      rw [multiplicand_of_opensFactor hopen] at hrun
      exact (hadv.bind h fun f ↦ Steady.pure _).shortens hrun
    · rw [multiplicand_of_no_sign hno hopen] at hrun
      cases hrun

theorem advances_letterOfVariable : Advances letterOfVariable := by
  refine Advances.bind_of_forall Steady.getName fun name ↦ ?_
  cases name with
  | none =>
    exact (Advances.require _ _).bind (Steady.require _ _) fun letter ↦
      (Steady.bindName _).bind fun _ ↦ Steady.pure _
  | some name =>
    exact (Advances.requireSkip _ _).bind (Steady.requireSkip _ _) fun _ ↦ Steady.pure _

theorem advances_numeral : Advances numeral := by
  refine Advances.bind ?_ steady_digits fun whole ↦ (Steady.skip? _).bind fun point ↦ ?_
  · exact (Advances.require _ _).bind (Steady.require _ _) fun _ ↦
      (Steady.takeAll _).bind fun _ ↦ Steady.pure _
  · cases point with
    | true => exact steady_digits.bind fun fraction ↦ Steady.pure _
    | false => exact Steady.pure _

theorem advances_leaf {p : Parser Node} (h : Advances p) : ∀ n : Nat, Advances (leaf p n)
  | 0 => Advances.tooDeep
  | _ + 1 => h

/-! ## All rules at once -/

/-- What the rules under one nesting limit need of each other to be steady: those that can stand
after a sign left out also take a character. -/
structure SteadyRules (n : Nat) : Prop where
  sum : Steady (Grammar.sum n)
  term : Steady (Grammar.term n)
  factor : Steady (Grammar.factor n) ∧ Advances (Grammar.factor n)
  base : Steady (Grammar.base n) ∧ Advances (Grammar.base n)
  primary : Steady (Grammar.primary n) ∧ Advances (Grammar.primary n)

theorem steadyRules (n : Nat) : SteadyRules n := by
  induction n with
  | zero =>
    exact ⟨Steady.tooDeep, Steady.tooDeep, ⟨Steady.tooDeep, Advances.tooDeep⟩,
      ⟨Steady.tooDeep, Advances.tooDeep⟩, ⟨Steady.tooDeep, Advances.tooDeep⟩⟩
  | succ n ih =>
    -- Steadiness of what follows an operand, and of a group, is needed twice.
    have exponent : ∀ operand : Node, Steady (do
        if ← skip? .caret then
          let exponent ← Grammar.factor n
          pure (.power operand (some exponent))
        else
          pure (.power operand none) : Parser Node) := by
      refine fun operand ↦ (Steady.skip? _).bind fun caret ↦ ?_
      cases caret with
      | true => exact ih.factor.1.bind fun exponent ↦ Steady.pure _
      | false => exact Steady.pure _
    have group : Steady (do
        let inner ← Grammar.sum n
        requireSkip .closeParen "primary"
        pure inner : Parser Node) :=
      ih.sum.bind fun inner ↦ (Steady.requireSkip _ _).bind fun _ ↦ Steady.pure inner
    refine ⟨?_, ?_, ⟨?_, ?_⟩, ⟨?_, ?_⟩, ⟨?_, ?_⟩⟩
    · exact ih.term.bind fun first ↦
        ((steady_addend ih.term).many (progresses_addend ih.term)).bind fun rest ↦ Steady.pure _
    · exact ih.factor.1.bind fun first ↦
        ((steady_multiplicand ih.factor.1).many
          (progresses_multiplicand ih.factor.1 ih.factor.2)).bind fun rest ↦ Steady.pure _
    · exact (Steady.takeAll _).bind fun signs ↦ ih.base.1.bind fun inner ↦ Steady.pure _
    · exact Advances.bind_of_forall (Steady.takeAll _) fun signs ↦
        ih.base.2.bind ih.base.1 fun inner ↦ Steady.pure _
    · exact ih.primary.1.bind exponent
    · exact ih.primary.2.bind ih.primary.1 exponent
    · refine (Steady.nextIs _).bind fun letter ↦ ?_
      cases letter with
      | true => exact steady_leaf steady_letterOfVariable n
      | false =>
        refine (Steady.nextIs _).bind fun digit ↦ ?_
        cases digit with
        | true => exact steady_leaf steady_numeral n
        | false => exact (Steady.requireSkip _ _).bind fun _ ↦ group
    · refine Advances.bind_of_forall (Steady.nextIs _) fun letter ↦ ?_
      cases letter with
      | true => exact advances_leaf advances_letterOfVariable n
      | false =>
        refine Advances.bind_of_forall (Steady.nextIs _) fun digit ↦ ?_
        cases digit with
        | true => exact advances_leaf advances_numeral n
        | false => exact (Advances.requireSkip _ _).bind (Steady.requireSkip _ _) fun _ ↦ group

theorem progresses_addend_term (n : Nat) : Progresses (addend (Grammar.term n)) :=
  progresses_addend (steadyRules n).term

theorem progresses_multiplicand_factor (n : Nat) :
    Progresses (multiplicand (Grammar.factor n)) :=
  progresses_multiplicand (steadyRules n).factor.1 (steadyRules n).factor.2

/-- **All rules are steady.** -/
theorem steady_rule (s : Symbol) (n : Nat) : Steady (s.parser n) := by
  have h := steadyRules n
  cases s with
  | sum => exact h.sum
  | addends => exact (steady_addend h.term).many (progresses_addend_term n)
  | term => exact h.term
  | multiplicands =>
    exact (steady_multiplicand h.factor.1).many (progresses_multiplicand_factor n)
  | factor => exact h.factor.1
  | base => exact h.base.1
  | primary => exact h.primary.1

end Grammar

end ExprSampler
