import ExprSampler.Proofs.Grammar.Steps

/-!
# Completeness

Every rule reads the text of a proper derivation to its end and gives its tree, provided that the
letters of the text agree, that nothing that follows goes on with the text, and that the rules may
nest deeply enough. The depth that a text needs is counted by its groups and exponents: through a
group five rules lead back to a sum, through an exponent two lead back to a factor.
-/

namespace ExprSampler

namespace Grammar

open ExprSampler.Parser

/-! ## Nesting -/

/-- How many rules lie between the given one and a letter or number, both included. -/
def Symbol.level : Symbol → Nat
  | .sum => 6
  | .addends | .term => 5
  | .multiplicands | .factor => 4
  | .base => 3
  | .primary => 2

/-- The nesting limit with which a rule reads a text. -/
def Symbol.need (s : Symbol) (cs : List Char) : Nat :=
  5 * cs.count '(' + 2 * cs.count '^' + s.level

/-! ## What does not go on a text -/

theorem no_sign_of_stops {r : List Char} (h : Stops .sum r) :
    ∀ c ∈ r.head?, ∀ op : AddOp, c ≠ op.sign := by
  rintro c hc op rfl
  have hstop := h _ hc
  cases op <;> exact absurd hstop (by decide)

theorem no_factor_of_stops {r : List Char} (h : Stops .term r) :
    (∀ c ∈ r.head?, ∀ op : MulOp, c ≠ op.sign) ∧ opensFactor r = false := by
  constructor
  · rintro c hc op rfl
    have hstop := h _ hc
    cases op <;> exact absurd hstop (by decide)
  · cases r with
    | nil => rfl
    | cons c r =>
      have hstop := h c rfl
      simp only [Symbol.continues, Bool.or_eq_false_iff] at hstop
      simp [opensFactor, hstop]

theorem no_caret_of_stops {r : List Char} (h : Stops .base r) : ∀ c ∈ r.head?, c ≠ '^' := by
  rintro c hc rfl
  exact absurd (h _ hc) (by decide)

theorem no_point_of_stops {r : List Char} (h : Stops .primary r) : ∀ c ∈ r.head?, c ≠ '.' := by
  rintro c hc rfl
  exact absurd (h _ hc) (by decide)

/-! ## Numbers -/

theorem numeral_append {whole : List Char} {fraction : Option (List Char)}
    (h : (Derivation.number whole fraction).Proper) {r : List Char}
    (hdigit : ∀ c ∈ r.head?, ¬c.isDigit = true) (hpoint : fraction = none → ∀ c ∈ r.head?, c ≠ '.')
    (bound : Option String) (i : Nat) :
    numeral bound ⟨i, (Derivation.number whole fraction).text ++ r⟩
      = (.done (Derivation.number whole fraction).tree
          ⟨i + (Derivation.number whole fraction).text.length, r⟩ none, bound) := by
  cases fraction with
  | none =>
    rw [Derivation.text, fractionChars, List.append_nil,
      numeral_of_whole h.1 hdigit (hpoint rfl)]
    rfl
  | some ds =>
    rw [Derivation.text, fractionChars, List.append_assoc, List.cons_append, numeral_of_point h.1,
      bind_of_done (digits_append (h.2 ds rfl) hdigit), pure_run, List.length_append,
      List.length_cons, Nat.add_assoc, Nat.add_assoc, Nat.add_comm 1]
    rfl

/-! ## Reading a derivation -/

namespace Derivation

variable {n i : Nat} {bound : Option String} {r : List Char}

/-- The parser of the rule, under a nesting limit and before a given text, reads the text of the
derivation and gives its tree. -/
def Reads {s : Symbol} (d : Derivation s) (n : Nat) (bound : Option String) (i : Nat)
    (r : List Char) : Prop :=
  s.parser n bound ⟨i, d.text ++ r⟩
    = (.done d.tree ⟨i + d.text.length, r⟩ none, nameAfter bound d.text)

/-- The same with the position and the name that reading ends with worked out otherwise. -/
theorem Reads.of_eq {s : Symbol} {d : Derivation s} {cs : List Char} {j : Nat}
    {bound' : Option String} (h : s.parser n bound ⟨i, cs⟩ = (.done d.tree ⟨j, r⟩ none, bound'))
    (hcs : cs = d.text ++ r) (hj : j = i + d.text.length)
    (hbound : bound' = nameAfter bound d.text) : d.Reads n bound i r := by
  subst hcs hj hbound
  exact h

theorem reads_sum {first : Derivation .term} {rest : Derivation .addends}
    (h₁ : first.Reads n bound i (rest.text ++ r))
    (h₂ : rest.Reads n (nameAfter bound first.text) (i + first.text.length) r) :
    (sum first rest).Reads (n + 1) bound i r := by
  refine Reads.of_eq (sum_of_done h₁ h₂) ?_ ?_ ?_
  · rw [text, List.append_assoc]
  · rw [text, List.length_append, Nat.add_assoc]
  · rw [text, nameAfter_append]

theorem reads_noAddend (h : ∀ c ∈ r.head?, ∀ op : AddOp, c ≠ op.sign) :
    noAddend.Reads n bound i r := by
  refine Reads.of_eq (addends_of_no_sign h) rfl rfl ?_
  rw [text, nameAfter_nil]

theorem reads_addend {op : AddOp} {operand : Derivation .term} {rest : Derivation .addends}
    (h₁ : operand.Reads n bound (i + 1) (rest.text ++ r))
    (h₂ : rest.Reads n (nameAfter bound operand.text) (i + 1 + operand.text.length) r) :
    (addend op operand rest).Reads n bound i r := by
  refine Reads.of_eq (addends_of_done op h₁ h₂) ?_ ?_ ?_
  · rw [text, List.cons_append, List.append_assoc]
  · rw [text, List.length_cons, List.length_append]
    omega
  · rw [text, nameAfter_cons op.isAlpha_sign, nameAfter_append]

theorem reads_term {first : Derivation .factor} {rest : Derivation .multiplicands}
    (h₁ : first.Reads n bound i (rest.text ++ r))
    (h₂ : rest.Reads n (nameAfter bound first.text) (i + first.text.length) r) :
    (term first rest).Reads (n + 1) bound i r := by
  refine Reads.of_eq (term_of_done h₁ h₂) ?_ ?_ ?_
  · rw [text, List.append_assoc]
  · rw [text, List.length_append, Nat.add_assoc]
  · rw [text, nameAfter_append]

theorem reads_noFactor (h : ∀ c ∈ r.head?, ∀ op : MulOp, c ≠ op.sign)
    (hopen : opensFactor r = false) : noFactor.Reads n bound i r := by
  refine Reads.of_eq (factors_of_no_sign h hopen) rfl rfl ?_
  rw [text, nameAfter_nil]

theorem reads_multiplicand {op : MulOp} {operand : Derivation .factor}
    {rest : Derivation .multiplicands} (h₁ : operand.Reads n bound (i + 1) (rest.text ++ r))
    (h₂ : rest.Reads n (nameAfter bound operand.text) (i + 1 + operand.text.length) r) :
    (multiplicand op operand rest).Reads n bound i r := by
  refine Reads.of_eq (factors_of_done (announces_of_sign n op bound i _) h₁ h₂) ?_ ?_ ?_
  · rw [text, List.cons_append, List.append_assoc]
  · rw [text, List.length_cons, List.length_append]
    omega
  · rw [text, nameAfter_cons op.isAlpha_sign, nameAfter_append]

theorem opensFactor_append {cs : List Char} (h : opensFactor cs = true) (v : List Char) :
    opensFactor (cs ++ v) = true := by
  obtain ⟨c, cs, rfl, -⟩ := exists_of_opensFactor h
  exact h

theorem reads_juxtaposed {operand : Derivation .factor} {rest : Derivation .multiplicands}
    (hopen : opensFactor operand.text = true) (h₁ : operand.Reads n bound i (rest.text ++ r))
    (h₂ : rest.Reads n (nameAfter bound operand.text) (i + operand.text.length) r) :
    (juxtaposed operand rest).Reads n bound i r := by
  have hannounce := announces_of_opensFactor n bound i (opensFactor_append hopen (rest.text ++ r))
  refine Reads.of_eq (factors_of_done hannounce h₁ h₂) ?_ ?_ ?_
  · rw [text, List.append_assoc]
  · rw [text, List.length_append, Nat.add_assoc]
  · rw [text, nameAfter_append]

theorem noLetters_signs (m : Nat) : NoLetters (List.replicate m '-') := fun c hc ↦ by
  rw [List.eq_of_mem_replicate hc]
  rfl

theorem reads_factor {signs : Nat} {operand : Derivation .base} (hproper : operand.Proper)
    (h : operand.Reads n bound (i + signs) r) : (factor signs operand).Reads (n + 1) bound i r := by
  refine Reads.of_eq (factor_of_done (head?_base_ne hproper r) h) ?_ ?_ ?_
  · rw [text, List.append_assoc]
  · rw [text, List.length_append, List.length_replicate, Nat.add_assoc]
  · rw [text, nameAfter_append, nameAfter_of_noLetters (noLetters_signs signs)]

theorem reads_plain {operand : Derivation .primary} (h : operand.Reads n bound i r)
    (hr : ∀ c ∈ r.head?, c ≠ '^') : (plain operand).Reads (n + 1) bound i r :=
  base_of_done h hr

theorem reads_raised {operand : Derivation .primary} {exponent : Derivation .factor}
    (h : operand.Reads n bound i ('^' :: (exponent.text ++ r)))
    (h₁ : exponent.Reads n (nameAfter bound operand.text) (i + operand.text.length + 1) r) :
    (raised operand exponent).Reads (n + 1) bound i r := by
  refine Reads.of_eq (base_of_exponent_done h h₁) ?_ ?_ ?_
  · rw [text, List.append_assoc, List.cons_append]
  · rw [text, List.length_append, List.length_cons]
    omega
  · rw [text, nameAfter_append, nameAfter_cons rfl]

theorem reads_letter {name : Char} (h : (letter name).Proper) (hu : Uniform bound [name]) :
    (letter name).Reads (n + 2) bound i r :=
  (primary_of_letter h).trans (letterOfVariable_of_uniform h hu)

theorem noLetters_number {whole : List Char} {fraction : Option (List Char)}
    (h : (number whole fraction).Proper) : NoLetters (number whole fraction).text := by
  intro c hc
  rcases List.mem_append.mp hc with hc | hc
  · exact not_isAlpha_of_isDigit (h.1.2 c hc)
  · cases fraction with
    | none => cases hc
    | some digits =>
      rcases List.mem_cons.mp hc with rfl | hc
      · rfl
      · exact not_isAlpha_of_isDigit ((h.2 digits rfl).2 c hc)

theorem reads_number {whole : List Char} {fraction : Option (List Char)}
    (h : (number whole fraction).Proper) (hdigit : ∀ c ∈ r.head?, ¬c.isDigit = true)
    (hpoint : fraction = none → ∀ c ∈ r.head?, c ≠ '.') :
    (number whole fraction).Reads (n + 2) bound i r := by
  obtain ⟨c, cs, hcs, hc⟩ := exists_cons_of_number h
  have hleaf : Grammar.primary (n + 2) bound ⟨i, (number whole fraction).text ++ r⟩
      = numeral bound ⟨i, (number whole fraction).text ++ r⟩ := by
    rw [hcs, List.cons_append, primary_of_digit hc]
    rfl
  refine Reads.of_eq (hleaf.trans (numeral_append h hdigit hpoint bound i)) rfl rfl ?_
  rw [nameAfter_of_noLetters (noLetters_number h)]

theorem reads_group {inner : Derivation .sum} (h : inner.Reads n bound (i + 1) (')' :: r)) :
    (group inner).Reads (n + 1) bound i r := by
  refine Reads.of_eq (primary_of_group_done h) ?_ ?_ ?_
  · rw [text, List.cons_append, List.append_assoc, List.singleton_append]
  · rw [text, List.length_cons, List.length_append, List.length_singleton]
    omega
  · rw [text, nameAfter_cons rfl, nameAfter_append,
      nameAfter_of_noLetters (noLetters_singleton rfl)]

/-! ## The main result -/

theorem need_le_of_sublist {s s' : Symbol} {v w : List Char} (h : v.Sublist w)
    (hlevel : s'.level ≤ s.level) : s'.need v ≤ s.need w := by
  have hgroups := h.count_le '('
  have hexponents := h.count_le '^'
  simp only [Symbol.need]
  omega

theorem need_lt_of_sublist {s s' : Symbol} {v w : List Char} (h : v.Sublist w)
    (hlevel : s'.level < s.level) : s'.need v < s.need w := by
  have hgroups := h.count_le '('
  have hexponents := h.count_le '^'
  simp only [Symbol.need]
  omega

/-- The caret pays for the way back from an exponent to a factor. -/
theorem need_lt_of_caret (u cs : List Char) :
    Symbol.factor.need cs < Symbol.base.need (u ++ '^' :: cs) := by
  simp only [Symbol.need, Symbol.level, List.count_append, List.count_cons_self,
    List.count_cons_of_ne (show '^' ≠ '(' by decide)]
  omega

/-- The parenthesis pays for the way back from a group to a sum. -/
theorem need_lt_of_group {v w : List Char} (h : v.Sublist w) :
    Symbol.sum.need v < Symbol.primary.need ('(' :: w) := by
  have hgroups := h.count_le '('
  have hexponents := h.count_le '^'
  simp only [Symbol.need, Symbol.level, List.count_cons_self,
    List.count_cons_of_ne (show '(' ≠ '^' by decide)]
  omega

/-- A rule that calls others on parts of its text leaves them enough. -/
theorem need_of_sublist {s s' : Symbol} {v w : List Char} (h : v.Sublist w)
    (hlevel : s'.level < s.level) (hn : s.need w ≤ n + 1) : s'.need v ≤ n :=
  Nat.le_of_lt_succ (Nat.lt_of_lt_of_le (need_lt_of_sublist h hlevel) hn)

theorem exists_succ_of_need {s : Symbol} {cs : List Char} (h : s.need cs ≤ n) :
    ∃ m, n = m + 2 := by
  have hlevel : 2 ≤ s.level := by cases s <;> decide
  simp only [Symbol.need] at h
  exact ⟨n - 2, by omega⟩

/-- **Completeness.** Every rule reads the texts of its proper derivations. -/
theorem reads {s : Symbol} (d : Derivation s) : ∀ {n i : Nat} {bound : Option String}
    {r : List Char}, d.Proper → s.need d.text ≤ n → Uniform bound d.text → Stops s r →
      d.Reads n bound i r := by
  -- Letters and limit pass on to the parts; behind a part stands what goes on with the rule.
  induction d with
  | sum first rest ihFirst ihRest =>
    intro n i bound r h hn hu hr
    obtain ⟨m, rfl⟩ := exists_succ_of_need hn
    have hu := uniform_append.mp hu
    exact reads_sum
      (ihFirst h.1 (need_of_sublist (List.sublist_append_left _ _) (by decide) hn) hu.1
        (stops_addends rest hr))
      (ihRest h.2 (need_of_sublist (List.sublist_append_right _ _) (by decide) hn) hu.2 hr)
  | noAddend =>
    intro n i bound r h hn hu hr
    exact reads_noAddend (no_sign_of_stops hr)
  | addend op operand rest ihOperand ihRest =>
    intro n i bound r h hn hu hr
    have hu := uniform_append.mp ((uniform_cons op.isAlpha_sign).mp hu)
    exact reads_addend
      (ihOperand h.1 (Nat.le_trans (need_le_of_sublist
        ((List.sublist_append_left _ _).cons _) (by decide)) hn) hu.1 (stops_addends rest hr))
      (ihRest h.2 (Nat.le_trans (need_le_of_sublist
        ((List.sublist_append_right _ _).cons _) (by decide)) hn) hu.2 hr)
  | term first rest ihFirst ihRest =>
    intro n i bound r h hn hu hr
    obtain ⟨m, rfl⟩ := exists_succ_of_need hn
    have hu := uniform_append.mp hu
    exact reads_term
      (ihFirst h.1 (need_of_sublist (List.sublist_append_left _ _) (by decide) hn) hu.1
        (stops_multiplicands h.2 hr))
      (ihRest h.2 (need_of_sublist (List.sublist_append_right _ _) (by decide) hn) hu.2 hr)
  | noFactor =>
    intro n i bound r h hn hu hr
    exact reads_noFactor (no_factor_of_stops hr).1 (no_factor_of_stops hr).2
  | multiplicand op operand rest ihOperand ihRest =>
    intro n i bound r h hn hu hr
    have hu := uniform_append.mp ((uniform_cons op.isAlpha_sign).mp hu)
    exact reads_multiplicand
      (ihOperand h.1 (Nat.le_trans (need_le_of_sublist
        ((List.sublist_append_left _ _).cons _) (by decide)) hn) hu.1
        (stops_multiplicands h.2 hr))
      (ihRest h.2 (Nat.le_trans (need_le_of_sublist
        ((List.sublist_append_right _ _).cons _) (by decide)) hn) hu.2 hr)
  | juxtaposed operand rest ihOperand ihRest =>
    intro n i bound r h hn hu hr
    have hu := uniform_append.mp hu
    exact reads_juxtaposed h.2.1
      (ihOperand h.1 (Nat.le_trans (need_le_of_sublist
        (List.sublist_append_left _ _) (by decide)) hn) hu.1 (stops_multiplicands h.2.2 hr))
      (ihRest h.2.2 (Nat.le_trans (need_le_of_sublist
        (List.sublist_append_right _ _) (by decide)) hn) hu.2 hr)
  | factor signs operand ih =>
    intro n i bound r h hn hu hr
    obtain ⟨m, rfl⟩ := exists_succ_of_need hn
    have hu := (uniform_append.mp hu).2
    rw [nameAfter_of_noLetters (noLetters_signs signs)] at hu
    exact reads_factor h
      (ih h (need_of_sublist (List.sublist_append_right _ _) (by decide) hn) hu hr)
  | plain operand ih =>
    intro n i bound r h hn hu hr
    obtain ⟨m, rfl⟩ := exists_succ_of_need hn
    exact reads_plain (ih h (need_of_sublist (List.Sublist.refl _) (by decide) hn) hu hr.primary)
      (no_caret_of_stops hr)
  | raised operand exponent ih ihExponent =>
    intro n i bound r h hn hu hr
    obtain ⟨m, rfl⟩ := exists_succ_of_need hn
    have hu := uniform_append.mp hu
    have hexponent : Symbol.factor.need exponent.text ≤ m + 1 :=
      Nat.le_of_lt_succ (Nat.lt_of_lt_of_le (need_lt_of_caret _ _) hn)
    exact reads_raised
      (ih h.1 (need_of_sublist (List.sublist_append_left _ _) (by decide) hn) hu.1
        (by simp [Symbol.continues]))
      (ihExponent h.2 hexponent ((uniform_cons rfl).mp hu.2) hr)
  | letter name =>
    intro n i bound r h hn hu hr
    obtain ⟨m, rfl⟩ := exists_succ_of_need hn
    exact reads_letter h hu
  | number whole fraction =>
    intro n i bound r h hn hu hr
    obtain ⟨m, rfl⟩ := exists_succ_of_need hn
    exact reads_number h (not_isDigit_of_stops hr) fun _ ↦ no_point_of_stops hr
  | group inner ih =>
    intro n i bound r h hn hu hr
    obtain ⟨m, rfl⟩ := exists_succ_of_need hn
    have hinner : Symbol.sum.need inner.text ≤ m + 1 :=
      Nat.le_of_lt_succ
        (Nat.lt_of_lt_of_le (need_lt_of_group (List.sublist_append_left _ _)) hn)
    exact reads_group (ih h hinner
      (uniform_append.mp ((uniform_cons rfl).mp hu)).1 (by simp [Symbol.continues]))

end Derivation

end Grammar

end ExprSampler
