import ExprSampler.Proofs.Parser.Runs
import ExprSampler.Proofs.Grammar.ErrorPosition

/-!
# What rejected texts lack

All rules of the grammar run in steps, so what is true of runs in general is true of reading a text:
a rejected text lacks exactly one thing, the one that the last step required, and the report says
what it is and where. Looking ahead and taking what may be absent leave nothing in it. A record of
things missed could hold several requirements, or descriptions that belong to no rule, and a report
is made from any of them; reading never makes use of that.
-/

namespace ExprSampler

namespace Grammar

open ExprSampler.Parser

/-! ## The rules run in steps -/

theorem stepwise_addend {term : Parser Node} (h : Stepwise term) : Stepwise (addend term) :=
  (Stepwise.skip? _).bind fun _ ↦ (h.bind fun _ ↦ Stepwise.pure _).ite <|
    (Stepwise.skip? _).bind fun _ ↦ (h.bind fun _ ↦ Stepwise.pure _).ite (Stepwise.pure _)

theorem stepwise_multiplies : Stepwise multiplies :=
  (Stepwise.skip? _).bind fun _ ↦ (Stepwise.pure _).ite (Stepwise.nextIs _)

theorem stepwise_multiplicand {factor : Parser Node} (h : Stepwise factor) :
    Stepwise (multiplicand factor) :=
  stepwise_multiplies.bind fun _ ↦ (h.bind fun _ ↦ Stepwise.pure _).ite <|
    (Stepwise.skip? _).bind fun _ ↦ (h.bind fun _ ↦ Stepwise.pure _).ite (Stepwise.pure _)

theorem stepwise_letterOfVariable : Stepwise letterOfVariable := by
  refine Stepwise.getName.bind fun name ↦ ?_
  cases name with
  | none =>
    exact (Stepwise.require _ _).bind fun letter ↦ (Stepwise.bindName _).bind fun _ ↦
      Stepwise.pure _
  | some name => exact (Stepwise.requireSkip _ _).bind fun _ ↦ Stepwise.pure _

theorem stepwise_digits : Stepwise digits :=
  (Stepwise.require _ _).bind fun _ ↦ (Stepwise.takeAll _).bind fun _ ↦ Stepwise.pure _

theorem stepwise_numeral : Stepwise numeral :=
  stepwise_digits.bind fun _ ↦ (Stepwise.skip? _).bind fun _ ↦
    (stepwise_digits.bind fun _ ↦ Stepwise.pure _).ite (Stepwise.pure _)

theorem stepwise_leaf {p : Parser Node} (h : Stepwise p) : ∀ n : Nat, Stepwise (leaf p n)
  | 0 => Stepwise.tooDeep
  | _ + 1 => h

/-- The rules under a limit run in steps. -/
structure StepwiseRules (n : Nat) : Prop where
  sum : Stepwise (Grammar.sum n)
  term : Stepwise (Grammar.term n)
  factor : Stepwise (Grammar.factor n)
  base : Stepwise (Grammar.base n)
  primary : Stepwise (Grammar.primary n)

theorem stepwiseRules (n : Nat) : StepwiseRules n := by
  induction n with
  | zero => constructor <;> exact Stepwise.tooDeep
  | succ n ih =>
    constructor
    · exact ih.term.bind fun first ↦
        (stepwise_addend ih.term).many.bind fun rest ↦ Stepwise.pure _
    · exact ih.factor.bind fun first ↦
        (stepwise_multiplicand ih.factor).many.bind fun rest ↦ Stepwise.pure _
    · exact (Stepwise.takeAll _).bind fun signs ↦ ih.base.bind fun inner ↦ Stepwise.pure _
    · exact ih.primary.bind fun operand ↦ (Stepwise.skip? _).bind fun caret ↦
        (ih.factor.bind fun exponent ↦ Stepwise.pure _).ite (Stepwise.pure _)
    · exact (Stepwise.nextIs _).bind fun letter ↦
        (stepwise_leaf stepwise_letterOfVariable n).ite <|
          (Stepwise.nextIs _).bind fun digit ↦ (stepwise_leaf stepwise_numeral n).ite <|
            (Stepwise.requireSkip _ _).bind fun _ ↦ ih.sum.bind fun inner ↦
              (Stepwise.requireSkip _ _).bind fun _ ↦ Stepwise.pure _

theorem stepwise_whole (n : Nat) : Stepwise (whole n) :=
  (stepwiseRules n).sum.bind fun _ ↦ (Stepwise.requireEnd _).bind fun _ ↦ Stepwise.pure _

/-! ## Rejected texts -/

/-- **A rejected text lacks one thing.** A run that fails, under whatever limit, stops at a step
that required something in vain, and has recorded that and nothing else; the report has this one
token to choose from and no description to fall back on. All reports come from such runs. -/
theorem rejected_for_one_requirement (bound : Option String) (text : String) :
    (∀ (n : Nat) (blame : Blame) (name : Option String),
      whole n bound (.seek text.toList 0) = (.failed blame, name) →
        ∃ (expected rule : String) (index : Nat), blame = ⟨index, [.token expected rule]⟩ ∧
          StopsAt (whole n) bound (.seek text.toList 0) expected rule index ∧
          ParseError.tokens blame.required = [(rule, expected)] ∧
          ParseError.descriptions blame.required = [] ∧
          parseTree bound text
            = (.error ⟨expected, text.toList[index]?.map String.singleton, rule, index, text⟩,
              name)) ∧
    ∀ (e : ParseError) (name : Option String), parseTree bound text = (.error e, name) →
      ∃ blame : Blame, e = .ofBlame text blame ∧
        whole (nestingBound text.toList) bound (.seek text.toList 0) = (.failed blame, name) := by
  refine ⟨fun n blame name hrun ↦ ?_, fun e name hparse ↦ ?_⟩
  · obtain ⟨expected, rule, index, rfl, hstops⟩ := (stepwise_whole n).stopsAt hrun
    have hlarger := whole_of_failed hrun (Nat.le_refl (Symbol.sum.need text.toList))
    have hparse := parseTree_of_failed hlarger (Nat.le_refl _)
    rw [ofBlame_token] at hparse
    exact ⟨expected, rule, index, rfl, hstops, rfl, rfl, hparse⟩
  · obtain ⟨d, proper, htext, uniform, -⟩ | ⟨blame, name', -, hrun⟩ :=
      whole_cases bound (Nat.le_refl (Symbol.sum.need text.toList))
    · rw [parseTree_of_derivation proper htext uniform] at hparse
      cases hparse
    · rw [parseTree_of_failed hrun (Nat.le_refl _)] at hparse
      cases hparse
      exact ⟨blame, rfl, hrun⟩

/-- Behind an open group everything that may be absent is looked for before the parenthesis that
must close it; only the parenthesis is reported. -/
theorem rejected_for_one_requirement_of_open_group :
    ∃ before : List Step,
      Runs (whole 11) none (.seek "2*(x".toList 0)
        (before ++ [.require (Text.quote ")") "primary" 4 false]) ∧
      (∀ step ∈ before, step.passed = true) ∧
      parseTree none "2*(x" = (.error ⟨Text.quote ")", none, "primary", 4, "2*(x"⟩, some "x") := by
  have hrun : whole 11 none (.seek "2*(x".toList 0)
      = (.failed ⟨4, [.token (Text.quote ")") "primary"]⟩, some "x") := rfl
  obtain ⟨_, _, _, heq, ⟨⟨steps, hsteps⟩, hlast⟩, -, -, hparse⟩ :=
    (rejected_for_one_requirement none "2*(x").1 _ _ _ hrun
  simp only [Blame.mk.injEq, List.cons.injEq, Requirement.token.injEq, and_true] at heq
  obtain ⟨rfl, rfl, rfl⟩ := heq
  obtain ⟨before, rfl, hpassed⟩ := hlast steps hsteps
  exact ⟨before, hsteps, hpassed, hparse⟩

end Grammar

end ExprSampler
