import ExprSampler.Proofs.Grammar.Completeness

/-!
# Soundness

What a rule answers on any text whatever. Either it reads the text of a proper derivation, or it
refuses the text at a place where the grammar asks for a character that is not there, or the
nesting limit is too small for the text.

A refusal is not only a record of where reading stopped. The text read up to there is the beginning
of a text of the rule: with any character that was asked for it can be completed, and no letter is
needed after that one. An inner rule that refuses hands the refusal on, and what completes its text
also completes the text around it.
-/

namespace ExprSampler

namespace Grammar

open ExprSampler.Parser

/-! ## What a refused text asks for -/

/-- What a rule asks for behind a text, when a name is bound there. Only a group and the letter of
the variable are asked for at the very start. -/
inductive Demand (w : List Char) (name : Option String) : CharClass → String → Prop
  | opening : Demand w name .openParen "primary"
  | closing (h : w ≠ []) : Demand w name .closeParen "primary"
  | digit (h : w ≠ []) : Demand w name .digit "number"
  | letter {v : String} (h : name = some v) : Demand w name (.literal v) "variable"

/-- Behind the text a character of the class is asked for, and each of them leads on to a text of
the rule. -/
structure Awaits (s : Symbol) (bound : Option String) (w : List Char) (k : CharClass)
    (rule : String) : Prop where
  demand : Demand w (nameAfter bound w) k rule
  completed : ∀ c : Char, k.contains c = true → (rule = "variable" → c.isAlpha = true) →
    ∃ (d : Derivation s) (v : List Char), d.Proper ∧ NoLetters v ∧ d.text = w ++ c :: v

/-- Behind `u`, and where a text goes on with `cs`, any derivation from one rule is part of one from
another, which is completed without letters. -/
def Inside (s' s : Symbol) (u cs : List Char) : Prop :=
  ∀ d' : Derivation s', d'.Proper → (opensFactor cs = true → opensFactor d'.text = true) →
    ∃ (d : Derivation s) (v : List Char), d.Proper ∧ NoLetters v ∧ d.text = u ++ (d'.text ++ v)

theorem noLetters_nil : NoLetters [] := fun _ hc ↦ absurd hc List.not_mem_nil

theorem NoLetters.append {w v : List Char} (hw : NoLetters w) (hv : NoLetters v) :
    NoLetters (w ++ v) := fun c hc ↦
  (List.mem_append.mp hc).elim (hw c) (hv c)

/-- With no text behind the inner derivation it is enough to name the outer one. -/
theorem inside_of_text_eq {s s' : Symbol} {u cs : List Char}
    (h : ∀ d' : Derivation s', d'.Proper → (opensFactor cs = true → opensFactor d'.text = true) →
      ∃ d : Derivation s, d.Proper ∧ d.text = u ++ d'.text) : Inside s' s u cs := by
  intro d' hproper hopen
  obtain ⟨d, hd, htext⟩ := h d' hproper hopen
  exact ⟨d, [], hd, noLetters_nil, by rw [htext, List.append_nil]⟩

section

variable {s s' : Symbol} {bound : Option String} {u w rest : List Char} {k : CharClass}
  {rule : String}

theorem Demand.append {name : Option String} (u : List Char) (h : Demand w name k rule) :
    Demand (u ++ w) name k rule := by
  cases h with
  | opening => exact .opening
  | closing h => exact .closing (List.append_ne_nil_of_right_ne_nil u h)
  | digit h => exact .digit (List.append_ne_nil_of_right_ne_nil u h)
  | letter h => exact .letter h

/-- A text that opens a factor still does when it is completed after it was refused. -/
theorem Demand.opensFactor {name : Option String} (h : Demand w name k rule) {c : Char}
    (hk : k.contains c = true) (hletter : rule = "variable" → c.isAlpha = true) (v : List Char)
    (hopen : opensFactor (w ++ rest) = true) : opensFactor (w ++ c :: v) = true := by
  cases w with
  | cons c' w => exact hopen
  | nil =>
    cases h with
    | opening =>
      obtain rfl : c = '(' := by simpa using hk
      rfl
    | closing h => exact absurd rfl h
    | digit h => exact absurd rfl h
    | letter h => simp [Grammar.opensFactor, hletter rfl]

theorem Awaits.inside (h : Awaits s' (nameAfter bound u) w k rule)
    (hd : Inside s' s u (w ++ rest)) : Awaits s bound (u ++ w) k rule where
  demand := by
    rw [nameAfter_append]
    exact h.demand.append u
  completed := by
    intro c hk hletter
    obtain ⟨d', v', hproper', hv', htext'⟩ := h.completed c hk hletter
    obtain ⟨d, v, hproper, hv, htext⟩ := hd d' hproper' fun hopen ↦ by
      rw [htext']
      exact h.demand.opensFactor hk hletter v' hopen
    exact ⟨d, v' ++ v, hproper, hv'.append hv, by rw [htext, htext']; simp⟩

end

/-! ## Answers without a value -/

/-- A rule answers without a value: the text is refused somewhere, or the nesting limit is too
small for it. -/
inductive Halts (s : Symbol) (n : Nat) (bound : Option String) (i : Nat) (cs : List Char) :
    Option Blame → Option String → Prop
  | refused {w rest : List Char} {k : CharClass} {rule : String} (htext : cs = w ++ rest)
      (uniform : Uniform bound w) (awaits : Awaits s bound w k rule)
      (hk : k.matchesNext rest.head? = false) :
      Halts s n bound i cs (some ⟨i + w.length, [.token k.description rule]⟩) (nameAfter bound w)
  | tooDeep {name : Option String} (h : n < s.need cs) : Halts s n bound i cs none name

theorem Halts.inside {s s' : Symbol} {n n' i : Nat} {bound name : Option String} {u cs : List Char}
    {o : Option Blame} (h : Halts s' n' (nameAfter bound u) (i + u.length) cs o name)
    (hu : Uniform bound u) (hneed : n' < s'.need cs → n < s.need (u ++ cs))
    (hd : Inside s' s u cs) : Halts s n bound i (u ++ cs) o name := by
  cases h with
  | @refused w rest k rule htext uniform awaits hk =>
    subst htext
    have hwhole : Halts s n bound i (u ++ (w ++ rest)) _ _ :=
      .refused (List.append_assoc u w rest).symm (uniform_append.mpr ⟨hu, uniform⟩)
        (awaits.inside hd) hk
    rw [List.length_append, ← Nat.add_assoc, nameAfter_append] at hwhole
    exact hwhole
  | tooDeep h => exact .tooDeep (hneed h)

/-- What a rule answers under a nesting limit. -/
inductive Outcome (s : Symbol) (n : Nat) (bound : Option String) (i : Nat) (cs : List Char) : Prop
  | read (d : Derivation s) (rest : List Char) (htext : cs = d.text ++ rest) (proper : d.Proper)
      (uniform : Uniform bound d.text) (run : d.Reads n bound i rest)
  | halted (o : Option Blame) (name : Option String) (h : Halts s n bound i cs o name)
      (run : s.parser n bound ⟨i, cs⟩ = (.halted o, name))

/-- Under the nesting limit, the rule has an outcome on every text. -/
def Settled (s : Symbol) (n : Nat) : Prop :=
  ∀ (bound : Option String) (i : Nat) (cs : List Char), Outcome s n bound i cs

/-! ## Rules inside rules -/

section

variable {s s' : Symbol} {n i : Nat} {bound name : Option String} {u cs : List Char}
  {o : Option Blame}

/-- A refusal behind a sign or another text without letters. -/
theorem Halts.behind {n' : Nat} (h : Halts s' n' bound (i + u.length) cs o name) (hu : NoLetters u)
    (hneed : n' < s'.need cs → n < s.need (u ++ cs)) (hd : Inside s' s u cs) :
    Halts s n bound i (u ++ cs) o name := by
  rw [← @nameAfter_of_noLetters bound u hu] at h
  exact h.inside (uniform_of_noLetters hu) hneed hd

/-- A rule called under the same limit needs no more than its caller. -/
theorem need_of_same_limit (u : List Char) (hlevel : s'.level ≤ s.level) (h : n < s'.need cs) :
    n < s.need (u ++ cs) :=
  Nat.lt_of_lt_of_le h
    (Derivation.need_le_of_sublist (List.sublist_append_right u cs) hlevel)

/-- A rule called under the next smaller limit needs less than its caller. -/
theorem need_of_next_limit (u : List Char) (hlevel : s'.level < s.level) (h : n < s'.need cs) :
    n + 1 < s.need (u ++ cs) :=
  Nat.lt_of_le_of_lt (Nat.succ_le_of_lt h)
    (Derivation.need_lt_of_sublist (List.sublist_append_right u cs) hlevel)

end

open ExprSampler.Grammar.Derivation

theorem opensFactor_of_append {d : Derivation .factor} (h : d.Proper) {r : List Char}
    (hopen : opensFactor (d.text ++ r) = true) : opensFactor d.text = true := by
  obtain ⟨c, cs, hcs⟩ := exists_cons_of_factor h
  rw [hcs] at hopen ⊢
  exact hopen

variable {n : Nat}

theorem settled_addends (h : Settled .term n) : Settled .addends n := by
  intro bound i cs
  induction hlen : cs.length using Nat.strongRecOn generalizing bound i cs with
  | ind len ih =>
    obtain ⟨op, r, rfl⟩ | hno := addend_cases cs
    · have hsign : NoLetters [op.sign] := noLetters_singleton op.isAlpha_sign
      rcases h bound (i + 1) r with ⟨operand, rest, rfl, proper, uniform, run⟩ | ⟨o, name, hh, run⟩
      · -- The sign has been taken, so the repetition goes on with a shorter text.
        have hshort : rest.length < len := by
          rw [← hlen, List.length_cons, List.length_append]
          omega
        have huniform : Uniform bound (op.sign :: operand.text) :=
          (uniform_cons op.isAlpha_sign).mpr uniform
        rcases ih _ hshort (nameAfter bound operand.text) (i + 1 + operand.text.length) rest rfl
          with ⟨d, rest, rfl, proper', uniform', run'⟩ | ⟨o, name, hh, run'⟩
        · exact .read (.addend op operand d) rest (by simp [text]) ⟨proper, proper'⟩
            ((uniform_cons op.isAlpha_sign).mpr (uniform_append.mpr ⟨uniform, uniform'⟩))
            (reads_addend run run')
        · refine .halted o name ?_ (addends_of_halted_rest op run run')
          rw [← nameAfter_cons op.isAlpha_sign, Nat.add_right_comm, Nat.add_assoc] at hh
          exact hh.inside huniform (need_of_same_limit _ (by decide))
            (inside_of_text_eq fun d hd _ ↦ ⟨.addend op operand d, ⟨proper, hd⟩, by simp [text]⟩)
      · refine .halted o name ?_ (addends_of_halted op run)
        exact hh.behind hsign (need_of_same_limit _ (by decide))
          (inside_of_text_eq fun d hd _ ↦ ⟨.addend op d .noAddend, ⟨hd, trivial⟩, by simp [text]⟩)
    · exact .read .noAddend cs rfl trivial (uniform_nil _) (reads_noAddend hno)

theorem settled_sum (hterm : Settled .term n) (hrest : Settled .addends n) :
    Settled .sum (n + 1) := by
  intro bound i cs
  rcases hterm bound i cs with ⟨first, r, rfl, proper, uniform, run⟩ | ⟨o, name, hh, run⟩
  · rcases hrest (nameAfter bound first.text) (i + first.text.length) r with
      ⟨rest, r, rfl, proper', uniform', run'⟩ | ⟨o, name, hh, run'⟩
    · exact .read (.sum first rest) r (by simp [text]) ⟨proper, proper'⟩
        (uniform_append.mpr ⟨uniform, uniform'⟩) (reads_sum run run')
    · refine .halted o name ?_ (sum_of_halted_rest run run')
      exact hh.inside uniform (need_of_next_limit _ (by decide))
        (inside_of_text_eq fun d hd _ ↦ ⟨.sum first d, ⟨proper, hd⟩, rfl⟩)
  · refine .halted o name ?_ (sum_of_halted run)
    exact hh.behind noLetters_nil (need_of_next_limit [] (by decide))
      (inside_of_text_eq fun d hd _ ↦ ⟨.sum d .noAddend, ⟨hd, trivial⟩, by simp [text]⟩)

theorem settled_multiplicands (h : Settled .factor n) : Settled .multiplicands n := by
  intro bound i cs
  induction hlen : cs.length using Nat.strongRecOn generalizing bound i cs with
  | ind len ih =>
    obtain ⟨op, r, rfl⟩ | hopen | ⟨hno, hopen⟩ := multiplicand_cases cs
    · have hsign : NoLetters [op.sign] := noLetters_singleton op.isAlpha_sign
      have hannounce := announces_of_sign n op bound i r
      rcases h bound (i + 1) r with ⟨operand, rest, rfl, proper, uniform, run⟩ | ⟨o, name, hh, run⟩
      · have hshort : rest.length < len := by
          rw [← hlen, List.length_cons, List.length_append]
          omega
        have huniform : Uniform bound (op.sign :: operand.text) :=
          (uniform_cons op.isAlpha_sign).mpr uniform
        rcases ih _ hshort (nameAfter bound operand.text) (i + 1 + operand.text.length) rest rfl
          with ⟨d, rest, rfl, proper', uniform', run'⟩ | ⟨o, name, hh, run'⟩
        · exact .read (.multiplicand op operand d) rest (by simp [text]) ⟨proper, proper'⟩
            ((uniform_cons op.isAlpha_sign).mpr (uniform_append.mpr ⟨uniform, uniform'⟩))
            (reads_multiplicand run run')
        · refine .halted o name ?_ (factors_of_halted_rest hannounce run run')
          rw [← nameAfter_cons op.isAlpha_sign, Nat.add_right_comm, Nat.add_assoc] at hh
          exact hh.inside huniform (need_of_same_limit _ (by decide)) (inside_of_text_eq
            fun d hd _ ↦ ⟨.multiplicand op operand d, ⟨proper, hd⟩, by simp [text]⟩)
      · refine .halted o name ?_ (factors_of_halted hannounce run)
        exact hh.behind hsign (need_of_same_limit _ (by decide)) (inside_of_text_eq
          fun d hd _ ↦ ⟨.multiplicand op d .noFactor, ⟨hd, trivial⟩, by simp [text]⟩)
    · have hannounce := announces_of_opensFactor n bound i hopen
      rcases h bound i cs with ⟨operand, rest, rfl, proper, uniform, run⟩ | ⟨o, name, hh, run⟩
      · -- A factor without a sign before it still takes a character.
        have hshort : rest.length < len := by
          rw [← hlen]
          exact (steadyRules n).factor.2.shortens run
        have hopen' : opensFactor operand.text = true := opensFactor_of_append proper hopen
        rcases ih _ hshort (nameAfter bound operand.text) (i + operand.text.length) rest rfl with
          ⟨d, rest, rfl, proper', uniform', run'⟩ | ⟨o, name, hh, run'⟩
        · exact .read (.juxtaposed operand d) rest (by simp [text]) ⟨proper, hopen', proper'⟩
            (uniform_append.mpr ⟨uniform, uniform'⟩) (reads_juxtaposed hopen' run run')
        · refine .halted o name ?_ (factors_of_halted_rest hannounce run run')
          exact hh.inside uniform (need_of_same_limit _ (by decide)) (inside_of_text_eq
            fun d hd _ ↦ ⟨.juxtaposed operand d, ⟨proper, hopen', hd⟩, rfl⟩)
      · refine .halted o name ?_ (factors_of_halted hannounce run)
        exact hh.behind noLetters_nil (need_of_same_limit [] (by decide)) (inside_of_text_eq
          fun d hd hd' ↦ ⟨.juxtaposed d .noFactor, ⟨hd, hd' hopen, trivial⟩, by simp [text]⟩)
    · exact .read .noFactor cs rfl trivial (uniform_nil _) (reads_noFactor hno hopen)

theorem settled_term (hfactor : Settled .factor n) (hrest : Settled .multiplicands n) :
    Settled .term (n + 1) := by
  intro bound i cs
  rcases hfactor bound i cs with ⟨first, r, rfl, proper, uniform, run⟩ | ⟨o, name, hh, run⟩
  · rcases hrest (nameAfter bound first.text) (i + first.text.length) r with
      ⟨rest, r, rfl, proper', uniform', run'⟩ | ⟨o, name, hh, run'⟩
    · exact .read (.term first rest) r (by simp [text]) ⟨proper, proper'⟩
        (uniform_append.mpr ⟨uniform, uniform'⟩) (reads_term run run')
    · refine .halted o name ?_ (term_of_halted_rest run run')
      exact hh.inside uniform (need_of_next_limit _ (by decide))
        (inside_of_text_eq fun d hd _ ↦ ⟨.term first d, ⟨proper, hd⟩, rfl⟩)
  · refine .halted o name ?_ (term_of_halted run)
    exact hh.behind noLetters_nil (need_of_next_limit [] (by decide))
      (inside_of_text_eq fun d hd _ ↦ ⟨.term d .noFactor, ⟨hd, trivial⟩, by simp [text]⟩)

theorem settled_factor (h : Settled .base n) : Settled .factor (n + 1) := by
  intro bound i cs
  obtain ⟨m, r, rfl, hr⟩ := exists_signs cs
  rcases h bound (i + m) r with ⟨operand, rest, rfl, proper, uniform, run⟩ | ⟨o, name, hh, run⟩
  · refine .read (.factor m operand) rest (by simp [text]) proper ?_ (reads_factor proper run)
    refine uniform_append.mpr ⟨uniform_of_noLetters (noLetters_signs m), ?_⟩
    rwa [nameAfter_of_noLetters (noLetters_signs m)]
  · refine .halted o name ?_ (factor_of_halted hr run)
    rw [← List.length_replicate (n := m) (a := '-')] at hh
    exact hh.behind (noLetters_signs m) (need_of_next_limit _ (by decide))
      (inside_of_text_eq fun d hd _ ↦ ⟨.factor m d, hd, rfl⟩)

/-- Behind an operand and a caret the outcome is that of the exponent. -/
theorem outcome_of_caret (hfactor : Settled .factor n) {bound : Option String} {i : Nat}
    {operand : Derivation .primary} {r : List Char} (proper : operand.Proper)
    (uniform : Uniform bound operand.text) (run : operand.Reads n bound i ('^' :: r)) :
    Outcome .base (n + 1) bound i (operand.text ++ '^' :: r) := by
  rcases hfactor (nameAfter bound operand.text) (i + operand.text.length + 1) r with
    ⟨exponent, rest, rfl, proper', uniform', run'⟩ | ⟨o, name, hh, run'⟩
  · exact .read (.raised operand exponent) rest (by simp [text]) ⟨proper, proper'⟩
      (uniform_append.mpr ⟨uniform, (uniform_cons rfl).mpr uniform'⟩) (reads_raised run run')
  · refine .halted o name ?_ (base_of_exponent_halted run run')
    -- The exponent stands behind the operand and the caret, taken together.
    have hsplit : operand.text ++ '^' :: r = (operand.text ++ ['^']) ++ r := by simp
    have huniform : Uniform bound (operand.text ++ ['^']) :=
      uniform_append.mpr ⟨uniform, uniform_of_noLetters (noLetters_singleton rfl)⟩
    have hname : nameAfter bound (operand.text ++ ['^']) = nameAfter bound operand.text := by
      rw [nameAfter_append, nameAfter_of_noLetters (noLetters_singleton rfl)]
    rw [← hname, Nat.add_assoc, ← List.length_singleton (a := '^'), ← List.length_append] at hh
    rw [hsplit]
    refine hh.inside huniform (fun hn ↦ ?_)
      (inside_of_text_eq fun d hd _ ↦ ⟨.raised operand d, ⟨proper, hd⟩, by simp [text]⟩)
    rw [← hsplit]
    exact Nat.lt_of_le_of_lt (Nat.succ_le_of_lt hn) (need_lt_of_caret _ _)

theorem settled_base (hprimary : Settled .primary n) (hfactor : Settled .factor n) :
    Settled .base (n + 1) := by
  intro bound i cs
  rcases hprimary bound i cs with ⟨operand, r, rfl, proper, uniform, run⟩ | ⟨o, name, hh, run⟩
  · obtain ⟨_, r, rfl, rfl⟩ | hnone := next_cases (· = '^') r
    · exact outcome_of_caret hfactor proper uniform run
    · exact .read (.plain operand) r rfl proper uniform (reads_plain run hnone)
  · refine .halted o name ?_ (base_of_halted run)
    exact hh.behind noLetters_nil (need_of_next_limit [] (by decide))
      (inside_of_text_eq fun d hd _ ↦ ⟨.plain d, hd, rfl⟩)

/-! ## Letters, numbers and groups -/

/-- The shortest sum. -/
def zero : Derivation .sum :=
  .sum (.term (.factor 0 (.plain (.number ['0'] none))) .noFactor) .noAddend

theorem proper_zero : zero.Proper := by
  simp [zero, Proper, IsDigits]

section

variable {i : Nat} {bound : Option String} {w : List Char}

theorem Halts.atStart {s : Symbol} {cs : List Char} {k : CharClass} {rule : String}
    (awaits : Awaits s bound [] k rule) (hk : k.matchesNext cs.head? = false) :
    Halts s n bound i cs (some ⟨i, [.token k.description rule]⟩) bound := by
  have h : Halts s n bound i cs _ _ := .refused (List.nil_append cs).symm (uniform_nil _) awaits hk
  rwa [nameAfter_nil] at h

theorem awaits_opening : Awaits .primary bound [] .openParen "primary" where
  demand := .opening
  completed c hc _ := by
    obtain rfl : c = '(' := by simpa using hc
    exact ⟨.group zero, ['0', ')'], proper_zero, by simp [NoLetters], rfl⟩

theorem awaits_closing {inner : Derivation .sum} (h : inner.Proper) :
    Awaits .primary bound ('(' :: inner.text) .closeParen "primary" where
  demand := .closing (List.cons_ne_nil _ _)
  completed c hc _ := by
    obtain rfl : c = ')' := by simpa using hc
    exact ⟨.group inner, [], h, noLetters_nil, rfl⟩

theorem awaits_letter {v : String} : Awaits .primary (some v) [] (.literal v) "variable" where
  demand := .letter rfl
  completed c _ hletter := ⟨.letter c, [], hletter rfl, noLetters_nil, rfl⟩

theorem awaits_digit {ds : List Char} (h : IsDigits ds) :
    Awaits .primary bound (ds ++ ['.']) .digit "number" where
  demand := .digit (List.append_ne_nil_of_right_ne_nil _ (List.cons_ne_nil _ _))
  completed c hc _ := by
    have hone : IsDigits [c] := by simpa [IsDigits] using hc
    exact ⟨.number ds (some [c]), [], ⟨h, by simpa using hone⟩, noLetters_nil,
      by simp [text, fractionChars]⟩

theorem noLetters_isDigits {ds : List Char} (h : IsDigits ds) : NoLetters ds := fun c hc ↦
  not_isAlpha_of_isDigit (h.2 c hc)

/-- A number has an outcome: it may lack the digits behind its point. -/
theorem outcome_of_digit {c : Char} (hc : c.isDigit = true) (cs : List Char) :
    Outcome .primary (n + 2) bound i (c :: cs) := by
  obtain ⟨ds, r, hcs, hds, hr⟩ := exists_digits hc cs
  obtain ⟨_, r, rfl, rfl⟩ | hnone := next_cases (· = '.') r
  · obtain ⟨c', r', rfl, hc'⟩ | hnone := next_cases (·.isDigit = true) r
    · obtain ⟨ds', r', hr', hds', hstop⟩ := exists_digits hc' r'
      have proper : (number ds (some ds')).Proper := ⟨hds, by simpa using hds'⟩
      exact .read (.number ds (some ds')) r' (by simp [hcs, hr', text, fractionChars]) proper
        (uniform_of_noLetters (noLetters_number proper)) (reads_number proper hstop (by simp))
    · have hletters : NoLetters (ds ++ ['.']) :=
        (noLetters_isDigits hds).append (noLetters_singleton rfl)
      have hend : CharClass.digit.matchesNext r.head? = false :=
        CharClass.matchesNext_eq_false fun c' hc' ↦ by simpa using hnone c' hc'
      -- The point has been read, so the digits behind it are missed and not the point.
      refine .halted _ _ (.refused (w := ds ++ ['.']) (by simp [hcs])
        (uniform_of_noLetters hletters) (awaits_digit hds) hend) ?_
      rw [List.length_append, List.length_singleton, ← Nat.add_assoc,
        nameAfter_of_noLetters hletters]
      refine (primary_of_digit hc).trans ?_
      rw [hcs]
      exact numeral_of_no_fraction hds hnone
  · have proper : (number ds none).Proper := ⟨hds, by simp⟩
    exact .read (.number ds none) r (by simp [hcs, text, fractionChars]) proper
      (uniform_of_noLetters (noLetters_number proper)) (reads_number proper hr fun _ ↦ hnone)

theorem outcome_of_letter {c : Char} (hc : c.isAlpha = true) (cs : List Char) :
    Outcome .primary (n + 2) bound i (c :: cs) := by
  by_cases huniform : Uniform bound [c]
  · exact .read (.letter c) cs rfl hc huniform (reads_letter hc huniform)
  · obtain ⟨v, rfl, hother, hrun⟩ := letterOfVariable_of_not_uniform (i := i) (r := cs) huniform
    exact .halted _ _ (.atStart awaits_letter hother) ((primary_of_letter hc).trans hrun)

theorem outcome_of_group (h : Settled .sum n) (cs : List Char) :
    Outcome .primary (n + 1) bound i ('(' :: cs) := by
  rcases h bound (i + 1) cs with ⟨inner, r, rfl, proper, uniform, run⟩ | ⟨o, name, hh, run⟩
  · have hletters : Uniform bound ('(' :: inner.text) := (uniform_cons rfl).mpr uniform
    obtain ⟨_, r, rfl, rfl⟩ | hnone := next_cases (· = ')') r
    · refine .read (.group inner) r (by simp [text]) proper ?_ (reads_group run)
      exact (uniform_cons rfl).mpr (uniform_append.mpr
        ⟨uniform, uniform_of_noLetters (noLetters_singleton rfl)⟩)
    · have hend : CharClass.closeParen.matchesNext r.head? = false :=
        CharClass.matchesNext_eq_false fun c hc ↦ by simpa using hnone c hc
      refine .halted _ _ (.refused (w := '(' :: inner.text) rfl hletters
        (awaits_closing proper) hend) ?_
      rw [List.length_cons, Nat.add_comm inner.text.length, ← Nat.add_assoc, nameAfter_cons rfl]
      exact primary_of_unclosed run hnone
  · refine .halted o name ?_ (primary_of_group_halted run)
    refine hh.behind (u := ['(']) (noLetters_singleton rfl) (fun hn ↦ ?_) fun d hd _ ↦
      ⟨.group d, [')'], hd, noLetters_singleton rfl, rfl⟩
    exact Nat.lt_of_le_of_lt (Nat.succ_le_of_lt hn) (need_lt_of_group (List.Sublist.refl _))

theorem settled_primary (h : Settled .sum n) : Settled .primary (n + 1) := by
  intro bound i cs
  obtain ⟨c, r, rfl, hc⟩ | hleaf := next_cases (fun c ↦ c.isAlpha = true ∨ c.isDigit = true) cs
  · -- A letter or number is a rule of its own and takes one level more.
    cases n with
    | zero =>
      refine .halted none bound (.tooDeep ?_) ?_
      · simp only [Symbol.need, Symbol.level]
        omega
      · rcases hc with hc | hc
        · exact primary_of_letter hc
        · exact primary_of_digit hc
    | succ n =>
      rcases hc with hc | hc
      · exact outcome_of_letter hc r
      · exact outcome_of_digit hc r
  · obtain ⟨_, r, rfl, rfl⟩ | hopen := next_cases (· = '(') cs
    · exact outcome_of_group h r
    · have hnone : ∀ c ∈ cs.head?, c.isAlpha = false ∧ c.isDigit = false ∧ c ≠ '(' := by
        intro c hc
        have hclass := hleaf c hc
        rw [not_or, Bool.not_eq_true, Bool.not_eq_true] at hclass
        exact ⟨hclass.1, hclass.2, hopen c hc⟩
      have hend : CharClass.openParen.matchesNext cs.head? = false :=
        CharClass.matchesNext_eq_false fun c hc ↦ by simpa using (hnone c hc).2.2
      exact .halted _ _ (.atStart awaits_opening hend) (primary_of_unopened hnone)

end

/-! ## All rules at once -/

/-- The rules of the grammar proper; the repetitions follow them. -/
structure SettledRules (n : Nat) : Prop where
  sum : Settled .sum n
  term : Settled .term n
  factor : Settled .factor n
  base : Settled .base n
  primary : Settled .primary n

theorem settledRules (n : Nat) : SettledRules n := by
  induction n with
  | zero =>
    have none : ∀ (s : Symbol) (bound : Option String) (i : Nat) (cs : List Char),
        Halts s 0 bound i cs none bound := fun s bound i cs ↦ .tooDeep <| by
      cases s <;> simp [Symbol.need, Symbol.level]
    constructor <;> exact fun bound i cs ↦ .halted _ _ (none _ bound i cs) rfl
  | succ n ih =>
    exact ⟨settled_sum ih.term (settled_addends ih.term),
      settled_term ih.factor (settled_multiplicands ih.factor), settled_factor ih.base,
      settled_base ih.primary ih.factor, settled_primary ih.sum⟩

/-- **Soundness.** Every rule reads a proper derivation, or refuses the text where it cannot go on,
or is under too small a limit. -/
theorem settled (s : Symbol) (n : Nat) : Settled s n := by
  have h := settledRules n
  cases s with
  | sum => exact h.sum
  | addends => exact settled_addends h.term
  | term => exact h.term
  | multiplicands => exact settled_multiplicands h.factor
  | factor => exact h.factor
  | base => exact h.base
  | primary => exact h.primary

end Grammar

end ExprSampler
