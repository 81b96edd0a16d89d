import ExprSampler.Proofs.Grammar.Rules

/-!
# The rules step by step

What a rule answers, given what the rules inside it answer. Each rule gets one equation for every
way it can go; these are the only statements that look into its definition.
-/

namespace ExprSampler

namespace Grammar

open ExprSampler.Parser

variable {n i j : Nat} {bound bound₁ bound₂ : Option String} {c c₁ c₂ : Cursor}
  {cs w r r' : List Char}
  {first inner operand : Node} {addends : List (AddOp × Node)} {factors : List (MulOp × Node)}
  {o : Option Blame}

/-! ## Sums -/

theorem sum_of_done (h₁ : Grammar.term n bound c = (.done first c₁ none, bound₁))
    (h₂ : many (addend (Grammar.term n)) bound₁ c₁ = (.done addends c₂ none, bound₂)) :
    Grammar.sum (n + 1) bound c = (.done (.sum first addends) c₂ none, bound₂) := by
  rw [Grammar.sum, bind_of_done h₁, bind_of_done h₂, pure_run]

theorem sum_of_halted (h₁ : Grammar.term n bound c = (.halted o, bound₁)) :
    Grammar.sum (n + 1) bound c = (.halted o, bound₁) := by
  rw [Grammar.sum, bind_of_halted h₁]

theorem sum_of_halted_rest (h₁ : Grammar.term n bound c = (.done first c₁ none, bound₁))
    (h₂ : many (addend (Grammar.term n)) bound₁ c₁ = (.halted o, bound₂)) :
    Grammar.sum (n + 1) bound c = (.halted o, bound₂) := by
  rw [Grammar.sum, bind_of_done h₁, bind_of_halted h₂]

theorem addends_of_no_sign (h : ∀ c ∈ cs.head?, ∀ op : AddOp, c ≠ op.sign) :
    many (addend (Grammar.term n)) bound ⟨i, cs⟩ = (.done [] ⟨i, cs⟩ none, bound) :=
  many_of_none (addend_of_no_sign h)

theorem addends_of_done (op : AddOp)
    (h₁ : Grammar.term n bound ⟨i + 1, r⟩ = (.done operand c₁ none, bound₁))
    (h₂ : many (addend (Grammar.term n)) bound₁ c₁ = (.done addends c₂ none, bound₂)) :
    many (addend (Grammar.term n)) bound ⟨i, op.sign :: r⟩
      = (.done ((op, operand) :: addends) c₂ none, bound₂) :=
  many_of_done (steady_addend (steadyRules n).term) (progresses_addend_term n)
    (addend_of_sign op) h₁ h₂

theorem addends_of_halted (op : AddOp)
    (h₁ : Grammar.term n bound ⟨i + 1, r⟩ = (.halted o, bound₁)) :
    many (addend (Grammar.term n)) bound ⟨i, op.sign :: r⟩ = (.halted o, bound₁) :=
  many_of_halted_operand (progresses_addend_term n) (addend_of_sign op) h₁

theorem addends_of_halted_rest (op : AddOp)
    (h₁ : Grammar.term n bound ⟨i + 1, r⟩ = (.done operand c₁ none, bound₁))
    (h₂ : many (addend (Grammar.term n)) bound₁ c₁ = (.halted o, bound₂)) :
    many (addend (Grammar.term n)) bound ⟨i, op.sign :: r⟩ = (.halted o, bound₂) :=
  many_of_halted_rest (steady_addend (steadyRules n).term) (progresses_addend_term n)
    (addend_of_sign op) h₁ h₂

/-! ## Products -/

theorem term_of_done (h₁ : Grammar.factor n bound c = (.done first c₁ none, bound₁))
    (h₂ : many (multiplicand (Grammar.factor n)) bound₁ c₁ = (.done factors c₂ none, bound₂)) :
    Grammar.term (n + 1) bound c = (.done (.product first factors) c₂ none, bound₂) := by
  rw [Grammar.term, bind_of_done h₁, bind_of_done h₂, pure_run]

theorem term_of_halted (h₁ : Grammar.factor n bound c = (.halted o, bound₁)) :
    Grammar.term (n + 1) bound c = (.halted o, bound₁) := by
  rw [Grammar.term, bind_of_halted h₁]

theorem term_of_halted_rest (h₁ : Grammar.factor n bound c = (.done first c₁ none, bound₁))
    (h₂ : many (multiplicand (Grammar.factor n)) bound₁ c₁ = (.halted o, bound₂)) :
    Grammar.term (n + 1) bound c = (.halted o, bound₂) := by
  rw [Grammar.term, bind_of_done h₁, bind_of_halted h₂]

theorem factors_of_no_sign (h : ∀ c ∈ cs.head?, ∀ op : MulOp, c ≠ op.sign)
    (hopen : opensFactor cs = false) :
    many (multiplicand (Grammar.factor n)) bound ⟨i, cs⟩ = (.done [] ⟨i, cs⟩ none, bound) :=
  many_of_none (multiplicand_of_no_sign h hopen)

/-- A further factor is announced: by its sign, or by a group or letter that multiplies. -/
def Announces (n : Nat) (op : MulOp) (bound : Option String) (c c₀ : Cursor) : Prop :=
  multiplicand (Grammar.factor n) bound c
    = (do let f ← Grammar.factor n; pure (some (op, f)) : Parser (Option (MulOp × Node))) bound c₀

theorem announces_of_sign (n : Nat) (op : MulOp) (bound : Option String) (i : Nat) (r : List Char) :
    Announces n op bound ⟨i, op.sign :: r⟩ ⟨i + 1, r⟩ :=
  multiplicand_of_sign op

theorem announces_of_opensFactor (n : Nat) (bound : Option String) (i : Nat)
    (h : opensFactor cs = true) : Announces n .times bound ⟨i, cs⟩ ⟨i, cs⟩ :=
  multiplicand_of_opensFactor h

section

variable {op : MulOp} {c₀ : Cursor}

theorem factors_of_done (h : Announces n op bound c c₀)
    (h₁ : Grammar.factor n bound c₀ = (.done operand c₁ none, bound₁))
    (h₂ : many (multiplicand (Grammar.factor n)) bound₁ c₁ = (.done factors c₂ none, bound₂)) :
    many (multiplicand (Grammar.factor n)) bound c
      = (.done ((op, operand) :: factors) c₂ none, bound₂) :=
  many_of_done (steady_multiplicand (steadyRules n).factor.1) (progresses_multiplicand_factor n)
    h h₁ h₂

theorem factors_of_halted (h : Announces n op bound c c₀)
    (h₁ : Grammar.factor n bound c₀ = (.halted o, bound₁)) :
    many (multiplicand (Grammar.factor n)) bound c = (.halted o, bound₁) :=
  many_of_halted_operand (progresses_multiplicand_factor n) h h₁

theorem factors_of_halted_rest (h : Announces n op bound c c₀)
    (h₁ : Grammar.factor n bound c₀ = (.done operand c₁ none, bound₁))
    (h₂ : many (multiplicand (Grammar.factor n)) bound₁ c₁ = (.halted o, bound₂)) :
    many (multiplicand (Grammar.factor n)) bound c = (.halted o, bound₂) :=
  many_of_halted_rest (steady_multiplicand (steadyRules n).factor.1)
    (progresses_multiplicand_factor n) h h₁ h₂

end

/-! ## Signs and exponents -/

theorem exists_signs (cs : List Char) :
    ∃ (m : Nat) (r : List Char), cs = List.replicate m '-' ++ r ∧ ∀ c ∈ r.head?, ¬c = '-' := by
  obtain ⟨w, r, rfl, hw, hr⟩ := exists_run .minus cs
  refine ⟨w.length, r, ?_, fun c hc ↦ ?_⟩
  · rw [← List.eq_replicate_of_mem fun c hc ↦ by simpa using hw c hc]
  · obtain ⟨r, rfl⟩ := List.head?_eq_some_iff.mp hc
    simpa using hr

theorem takeAll_signs (m : Nat) (hr : ∀ c ∈ r.head?, ¬c = '-') (bound : Option String) (i : Nat) :
    takeAll .minus bound ⟨i, List.replicate m '-' ++ r⟩
      = (.done (List.replicate m '-') ⟨i + m, r⟩ none, bound) := by
  have hstop : CharClass.minus.matchesNext r.head? = false :=
    CharClass.matchesNext_eq_false fun c hc ↦ by simpa using hr c hc
  have hall : ∀ c ∈ List.replicate m '-', CharClass.minus.contains c = true := fun c hc ↦ by
    rw [List.eq_of_mem_replicate hc, CharClass.contains_minus]
    rfl
  rw [takeAll_append hall hstop, List.length_replicate]

theorem factor_of_done {m : Nat} (hr : ∀ c ∈ r.head?, ¬c = '-')
    (h : Grammar.base n bound ⟨i + m, r⟩ = (.done inner c₁ none, bound₁)) :
    Grammar.factor (n + 1) bound ⟨i, List.replicate m '-' ++ r⟩
      = (.done (.signed (m % 2 == 1) inner) c₁ none, bound₁) := by
  rw [Grammar.factor, bind_of_done (takeAll_signs m hr bound i), bind_of_done h, pure_run,
    List.length_replicate]

theorem factor_of_halted {m : Nat} (hr : ∀ c ∈ r.head?, ¬c = '-')
    (h : Grammar.base n bound ⟨i + m, r⟩ = (.halted o, bound₁)) :
    Grammar.factor (n + 1) bound ⟨i, List.replicate m '-' ++ r⟩ = (.halted o, bound₁) := by
  rw [Grammar.factor, bind_of_done (takeAll_signs m hr bound i), bind_of_halted h]

theorem base_of_halted (h : Grammar.primary n bound c = (.halted o, bound₁)) :
    Grammar.base (n + 1) bound c = (.halted o, bound₁) := by
  rw [Grammar.base, bind_of_halted h]

theorem base_of_done (h : Grammar.primary n bound c = (.done operand ⟨j, r⟩ none, bound₁))
    (hr : ∀ c ∈ r.head?, c ≠ '^') :
    Grammar.base (n + 1) bound c = (.done (.power operand none) ⟨j, r⟩ none, bound₁) := by
  have hcaret : CharClass.caret.matchesNext r.head? = false :=
    CharClass.matchesNext_eq_false fun c hc ↦ by simpa using hr c hc
  rw [Grammar.base, bind_of_done h, bind_of_done (skip?_of_not_matches hcaret _ _)]
  rfl

section

variable {exponent : Node}

theorem base_of_exponent_done
    (h : Grammar.primary n bound c = (.done operand ⟨j, '^' :: r⟩ none, bound₁))
    (h₁ : Grammar.factor n bound₁ ⟨j + 1, r⟩ = (.done exponent c₂ none, bound₂)) :
    Grammar.base (n + 1) bound c = (.done (.power operand (some exponent)) c₂ none, bound₂) := by
  rw [Grammar.base, bind_of_done h, bind_of_done (skip?_of_matches (by simp) _ _ _), if_pos rfl,
    bind_of_done h₁, pure_run]

theorem base_of_exponent_halted
    (h : Grammar.primary n bound c = (.done operand ⟨j, '^' :: r⟩ none, bound₁))
    (h₁ : Grammar.factor n bound₁ ⟨j + 1, r⟩ = (.halted o, bound₂)) :
    Grammar.base (n + 1) bound c = (.halted o, bound₂) := by
  rw [Grammar.base, bind_of_done h, bind_of_done (skip?_of_matches (by simp) _ _ _), if_pos rfl,
    bind_of_halted h₁]

end

/-! ## Primaries -/

theorem primary_of_letter {name : Char} (halpha : name.isAlpha = true) :
    Grammar.primary (n + 1) bound ⟨i, name :: r⟩
      = leaf letterOfVariable n bound ⟨i, name :: r⟩ := by
  rw [Grammar.primary, bind_of_done (nextIs_run _ _ _ _), if_pos]
  simpa using halpha

theorem primary_of_digit {digit : Char} (hdigit : digit.isDigit = true) :
    Grammar.primary (n + 1) bound ⟨i, digit :: r⟩ = leaf numeral n bound ⟨i, digit :: r⟩ := by
  have hletter : digit.isAlpha = false := not_isAlpha_of_isDigit hdigit
  rw [Grammar.primary, bind_of_done (nextIs_run _ _ _ _), if_neg, bind_of_done (nextIs_run _ _ _ _),
    if_pos]
  · simpa using hdigit
  · simpa using hletter

/-- The rule for groups, as a part of the rule for primaries. -/
theorem primary_of_no_leaf (h : ∀ c ∈ cs.head?, c.isAlpha = false ∧ c.isDigit = false) :
    Grammar.primary (n + 1) bound ⟨i, cs⟩
      = (do
          requireSkip .openParen "primary"
          let inner ← Grammar.sum n
          requireSkip .closeParen "primary"
          pure inner : Parser Node) bound ⟨i, cs⟩ := by
  have hletter : CharClass.letter.matchesNext cs.head? = false :=
    CharClass.matchesNext_eq_false fun c hc ↦ by simpa using (h c hc).1
  have hdigit : CharClass.digit.matchesNext cs.head? = false :=
    CharClass.matchesNext_eq_false fun c hc ↦ by simpa using (h c hc).2
  rw [Grammar.primary, bind_of_done (nextIs_run _ _ _ _), if_neg, bind_of_done (nextIs_run _ _ _ _),
    if_neg]
  · simp [hdigit]
  · simp [hletter]

theorem primary_of_unopened
    (h : ∀ c ∈ cs.head?, c.isAlpha = false ∧ c.isDigit = false ∧ c ≠ '(') :
    Grammar.primary (n + 1) bound ⟨i, cs⟩
      = (.failed ⟨i, [.token CharClass.openParen.description "primary"]⟩, bound) := by
  have hopen : CharClass.openParen.matchesNext cs.head? = false :=
    CharClass.matchesNext_eq_false fun c hc ↦ by simpa using (h c hc).2.2
  rw [primary_of_no_leaf fun c hc ↦ ⟨(h c hc).1, (h c hc).2.1⟩,
    bind_of_failed (requireSkip_of_not_matches hopen _ _ _)]

theorem primary_of_group :
    Grammar.primary (n + 1) bound ⟨i, '(' :: r⟩
      = (do
          let inner ← Grammar.sum n
          requireSkip .closeParen "primary"
          pure inner : Parser Node) bound ⟨i + 1, r⟩ := by
  rw [primary_of_no_leaf (by simp), bind_of_done (requireSkip_of_matches (by simp) _ _ _ _)]

theorem primary_of_group_done
    (h : Grammar.sum n bound ⟨i + 1, r⟩ = (.done inner ⟨j, ')' :: r'⟩ none, bound₁)) :
    Grammar.primary (n + 1) bound ⟨i, '(' :: r⟩ = (.done inner ⟨j + 1, r'⟩ none, bound₁) := by
  rw [primary_of_group, bind_of_done h, bind_of_done (requireSkip_of_matches (by simp) _ _ _ _),
    pure_run]

theorem primary_of_unclosed
    (h : Grammar.sum n bound ⟨i + 1, r⟩ = (.done inner ⟨j, r'⟩ none, bound₁))
    (hr : ∀ c ∈ r'.head?, c ≠ ')') :
    Grammar.primary (n + 1) bound ⟨i, '(' :: r⟩
      = (.failed ⟨j, [.token CharClass.closeParen.description "primary"]⟩, bound₁) := by
  have hclose : CharClass.closeParen.matchesNext r'.head? = false :=
    CharClass.matchesNext_eq_false fun c hc ↦ by simpa using hr c hc
  rw [primary_of_group, bind_of_done h, bind_of_failed (requireSkip_of_not_matches hclose _ _ _)]

theorem primary_of_group_halted (h : Grammar.sum n bound ⟨i + 1, r⟩ = (.halted o, bound₁)) :
    Grammar.primary (n + 1) bound ⟨i, '(' :: r⟩ = (.halted o, bound₁) := by
  rw [primary_of_group, bind_of_halted h]

/-! ## Letters and numbers -/

theorem letterOfVariable_none (c : Cursor) :
    letterOfVariable none c
      = (do
          let letter ← require .letter "variable"
          bindName (String.singleton letter)
          pure .var : Parser Node) none c :=
  bind_of_done (show getName none c = (.done none c none, none) from rfl)

theorem letterOfVariable_some (name : String) (c : Cursor) :
    letterOfVariable (some name) c
      = (do
          requireSkip (.literal name) "variable"
          pure .var : Parser Node) (some name) c :=
  bind_of_done (show getName (some name) c = (.done (some name) c none, some name) from rfl)

theorem letterOfVariable_of_uniform {name : Char} (halpha : name.isAlpha = true)
    (h : Uniform bound [name]) :
    letterOfVariable bound ⟨i, name :: r⟩
      = (.done .var ⟨i + 1, r⟩ none, nameAfter bound [name]) := by
  have hname := nameAfter_singleton halpha h
  rw [hname]
  cases bound with
  | none =>
    have hletter : CharClass.letter.contains name = true := by
      rw [CharClass.contains_letter, halpha]
    rw [letterOfVariable_none, bind_of_done (require_of_matches hletter _ _ _ _)]
    rfl
  | some v =>
    obtain rfl : v = String.singleton name := Option.some.inj hname
    have hsame : (CharClass.literal (String.singleton name)).contains name = true := by
      rw [CharClass.contains_literal_singleton, beq_self_eq_true]
    rw [letterOfVariable_some, bind_of_done (requireSkip_of_matches hsame _ _ _ _)]
    rfl

/-- A letter is refused only for the sake of a name that is bound already. -/
theorem letterOfVariable_of_not_uniform {name : Char} (h : ¬Uniform bound [name]) :
    ∃ v, bound = some v ∧ (CharClass.literal v).contains name = false ∧
      letterOfVariable bound ⟨i, name :: r⟩
        = (.failed ⟨i, [.token (CharClass.literal v).description "variable"]⟩, bound) := by
  cases bound with
  | none => exact absurd (uniform_singleton (by simp)) h
  | some v =>
    have hother : (CharClass.literal v).contains name = false := by
      refine Bool.eq_false_iff.mpr fun hsame ↦ h (uniform_singleton fun v' hv' ↦ ?_)
      have htext := CharClass.contains_literal_iff.mp hsame
      obtain rfl : v = v' := Option.some.inj hv'
      rw [← String.toList_inj, htext, String.toList_singleton]
    have hnext : (CharClass.literal v).matchesNext (name :: r).head? = false := hother
    refine ⟨v, rfl, hother, ?_⟩
    rw [letterOfVariable_some, bind_of_failed (requireSkip_of_not_matches hnext _ _ _)]

theorem digits_append {ds : List Char} (hd : Derivation.IsDigits ds)
    (hr : ∀ c ∈ r.head?, ¬c.isDigit = true) :
    digits bound ⟨i, ds ++ r⟩ = (.done ds ⟨i + ds.length, r⟩ none, bound) := by
  obtain ⟨hne, hall⟩ := hd
  obtain ⟨d, ds, rfl⟩ := List.exists_cons_of_ne_nil hne
  have hfirst : CharClass.digit.contains d = true := by simpa using hall d List.mem_cons_self
  have hmore : ∀ c ∈ ds, CharClass.digit.contains c = true := fun c hc ↦ by
    simpa using hall c (List.mem_cons_of_mem _ hc)
  have hrest : CharClass.digit.matchesNext r.head? = false :=
    CharClass.matchesNext_eq_false fun c hc ↦ by simpa using hr c hc
  rw [digits, List.cons_append, bind_of_done (require_of_matches hfirst _ _ _ _),
    bind_of_done (takeAll_append hmore hrest _ _), pure_run, List.length_cons, Nat.add_assoc,
    Nat.add_comm 1]

theorem exists_digits {d : Char} (hd : d.isDigit = true) (cs : List Char) :
    ∃ ds r, d :: cs = ds ++ r ∧ Derivation.IsDigits ds ∧ ∀ c ∈ r.head?, ¬c.isDigit = true := by
  obtain ⟨w, r, rfl, hw, hr⟩ := exists_run .digit cs
  refine ⟨d :: w, r, rfl, ⟨List.cons_ne_nil _ _, ?_⟩, ?_⟩
  · simpa [hd] using hw
  · intro c hc
    rw [hc] at hr
    simpa using hr

theorem digits_of_no_digit (h : ∀ c ∈ cs.head?, ¬c.isDigit = true) :
    digits bound ⟨i, cs⟩ = (.failed ⟨i, [.token CharClass.digit.description "number"]⟩, bound) := by
  have hnone : CharClass.digit.matchesNext cs.head? = false :=
    CharClass.matchesNext_eq_false fun c hc ↦ by simpa using h c hc
  rw [digits, bind_of_failed (require_of_not_matches hnone _ _ _)]

theorem numeral_of_whole {ds : List Char} (hd : Derivation.IsDigits ds)
    (hr : ∀ c ∈ r.head?, ¬c.isDigit = true) (hpoint : ∀ c ∈ r.head?, c ≠ '.') :
    numeral bound ⟨i, ds ++ r⟩
      = (.done (.number (Decimal.ofPlaces ds []).toFloat) ⟨i + ds.length, r⟩ none, bound) := by
  have hnone : CharClass.decimalPoint.matchesNext r.head? = false :=
    CharClass.matchesNext_eq_false fun c hc ↦ by simpa using hpoint c hc
  rw [numeral, bind_of_done (digits_append hd hr),
    bind_of_done (skip?_of_not_matches hnone _ _), if_neg Bool.false_ne_true, pure_run]

theorem numeral_of_point {ds : List Char} (hd : Derivation.IsDigits ds) :
    numeral bound ⟨i, ds ++ '.' :: r⟩
      = (do
          let fraction ← digits
          pure (.number (Decimal.ofPlaces ds fraction).toFloat) : Parser Node)
          bound ⟨i + ds.length + 1, r⟩ := by
  have hpoint : ∀ c ∈ ('.' :: r).head?, ¬c.isDigit = true := by simp
  rw [numeral, bind_of_done (digits_append hd hpoint),
    bind_of_done (skip?_of_matches (by simp) _ _ _), if_pos rfl]

theorem numeral_of_no_fraction {ds : List Char} (hd : Derivation.IsDigits ds)
    (hr : ∀ c ∈ r.head?, ¬c.isDigit = true) :
    numeral bound ⟨i, ds ++ '.' :: r⟩
      = (.failed ⟨i + ds.length + 1, [.token CharClass.digit.description "number"]⟩, bound) := by
  rw [numeral_of_point hd, bind_of_failed (digits_of_no_digit hr)]

end Grammar

end ExprSampler
