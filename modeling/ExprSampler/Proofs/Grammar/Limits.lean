import ExprSampler.Proofs.Grammar.Rules

/-!
# Nesting limits

A nesting limit only ever cuts reading short. Where a rule answers under one limit, it answers the
same under every larger limit. One parser *refines* another if it gives the same answer wherever
the other does not give up; this passes from the steps of a parser to the whole, so every rule
under a limit is refined by the same rule under the next.
-/

namespace ExprSampler

namespace Parser

variable {α β : Type}

/-- The second parser answers as the first does, wherever the first does not give up. -/
def Refines (p q : Parser α) : Prop :=
  ∀ (bound : Option String) (c : Cursor), (p bound c).1 ≠ .tooDeep → q bound c = p bound c

namespace Refines

theorem refl (p : Parser α) : Refines p p := fun _ _ _ ↦ rfl

theorem trans {p q r : Parser α} (hpq : Refines p q) (hqr : Refines q r) : Refines p r := by
  intro bound c h
  have hq := hpq bound c h
  rw [← hq] at h
  exact (hqr bound c h).trans hq

theorem of_tooDeep (p : Parser α) : Refines tooDeep p := fun _ _ h ↦ absurd rfl h

theorem bind {p q : Parser α} {f g : α → Parser β} (hp : Refines p q)
    (hf : ∀ a, Refines (f a) (g a)) : Refines (p >>= f) (q >>= g) := by
  intro bound c h
  rcases hrun : p bound c with ⟨⟨a, c₁, missed⟩ | blame | _, bound₁⟩
  · have hne : (p bound c).1 ≠ .tooDeep := by
      rw [hrun]
      intro htoo
      cases htoo
    have hq := (hp bound c hne).trans hrun
    rw [bind_run, andThen, hrun] at h
    dsimp only at h
    -- The first step answers alike, and what follows it does not give up either.
    have hg : g a bound₁ c₁ = f a bound₁ c₁ := hf a bound₁ c₁ fun htoo ↦ by
      rcases hrun₂ : f a bound₁ c₁ with ⟨reply, bound₂⟩
      rw [hrun₂] at htoo h
      obtain rfl : reply = .tooDeep := htoo
      exact h rfl
    rw [bind_run, bind_run, andThen, andThen, hq, hrun]
    dsimp only
    rw [hg]
  · have hne : (p bound c).1 ≠ .tooDeep := by
      rw [hrun]
      intro htoo
      cases htoo
    rw [bind_of_failed hrun, bind_of_failed ((hp bound c hne).trans hrun)]
  · rw [bind_of_tooDeep hrun] at h
    exact absurd rfl h

theorem ite {b : Bool} {p q p' q' : Parser α} (hp : Refines p q) (hp' : Refines p' q') :
    Refines (if b then p else p') (if b then q else q') := by
  cases b
  · exact hp'
  · exact hp

theorem rounds {step step' : Parser (Option α)} (h : Refines step step') (budget : List Char) :
    Refines (rounds step budget) (rounds step' budget) := by
  induction budget with
  | nil => exact refl _
  | cons _ budget ih =>
    refine h.bind fun a ↦ ?_
    cases a with
    | none => exact refl _
    | some a => exact ih.bind fun more ↦ refl _

theorem many {step step' : Parser (Option α)} (h : Refines step step') :
    Refines (many step) (many step') := fun bound c ↦
  h.rounds c.rest bound c

end Refines

end Parser

namespace Grammar

open ExprSampler.Parser

/-! ## Rules under growing limits -/

theorem refines_addend {term term' : Parser Node} (h : Refines term term') :
    Refines (addend term) (addend term') :=
  (Refines.refl _).bind fun _ ↦ (h.bind fun _ ↦ Refines.refl _).ite <|
    (Refines.refl _).bind fun _ ↦ (h.bind fun _ ↦ Refines.refl _).ite (Refines.refl _)

theorem refines_multiplicand {factor factor' : Parser Node} (h : Refines factor factor') :
    Refines (multiplicand factor) (multiplicand factor') :=
  (Refines.refl _).bind fun _ ↦ (h.bind fun _ ↦ Refines.refl _).ite <|
    (Refines.refl _).bind fun _ ↦ (h.bind fun _ ↦ Refines.refl _).ite (Refines.refl _)

theorem refines_leaf (p : Parser Node) : ∀ n : Nat, Refines (leaf p n) (leaf p (n + 1))
  | 0 => Refines.of_tooDeep _
  | _ + 1 => Refines.refl _

/-- The rules under one limit are refined by those under the next. -/
structure RefinedRules (n : Nat) : Prop where
  sum : Refines (Grammar.sum n) (Grammar.sum (n + 1))
  term : Refines (Grammar.term n) (Grammar.term (n + 1))
  factor : Refines (Grammar.factor n) (Grammar.factor (n + 1))
  base : Refines (Grammar.base n) (Grammar.base (n + 1))
  primary : Refines (Grammar.primary n) (Grammar.primary (n + 1))

theorem refinedRules (n : Nat) : RefinedRules n := by
  induction n with
  | zero => constructor <;> exact Refines.of_tooDeep _
  | succ n ih =>
    constructor
    · exact ih.term.bind fun first ↦
        (refines_addend ih.term).many.bind fun rest ↦ Refines.refl _
    · exact ih.factor.bind fun first ↦
        (refines_multiplicand ih.factor).many.bind fun rest ↦ Refines.refl _
    · exact (Refines.refl _).bind fun signs ↦ ih.base.bind fun inner ↦ Refines.refl _
    · exact ih.primary.bind fun operand ↦ (Refines.refl _).bind fun caret ↦
        (ih.factor.bind fun exponent ↦ Refines.refl _).ite (Refines.refl _)
    · exact (Refines.refl _).bind fun letter ↦ (refines_leaf _ n).ite <|
        (Refines.refl _).bind fun digit ↦ (refines_leaf _ n).ite <|
          (Refines.refl _).bind fun _ ↦ ih.sum.bind fun inner ↦ Refines.refl _

/-- **A larger limit changes no answer.** -/
theorem refines_whole {n m : Nat} (h : n ≤ m) : Refines (whole n) (whole m) := by
  induction h with
  | refl => exact Refines.refl _
  | step h ih => exact ih.trans ((refinedRules _).sum.bind fun root ↦ Refines.refl _)

end Grammar

end ExprSampler
