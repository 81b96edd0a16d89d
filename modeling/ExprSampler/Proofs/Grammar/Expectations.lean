import ExprSampler.Proofs.Grammar.ErrorPosition

/-!
# What errors expect

An error names what the text was expected to go on with. That is never an empty promise: the text up
to the position of the error, followed by what is expected there, is the beginning of an expression,
whatever groups, powers or fractions are unfinished at that place.

Only four things are ever expected. Letters are expected one by one: where any letter would do, an
opening parenthesis would do as well, and it is the parenthesis that is named.
-/

namespace ExprSampler

namespace Grammar

open ExprSampler.Parser

/-- The text is the beginning of a text that is accepted. -/
def Completable (cs : List Char) : Prop :=
  ∃ (more : List Char) (accepted : Expression),
    Expression.parse (String.ofList (cs ++ more)) = .ok accepted

/-- What can be expected behind a text, in which rule, and that it leads on. -/
inductive Promised (w : List Char) : String → String → Prop
  /-- The text is complete. -/
  | endOfInput {accepted : Expression} (h : Expression.parse (String.ofList w) = .ok accepted) :
      Promised w "end of input" "expression"
  /-- Any digit leads on. -/
  | digit (h : ∀ c : Char, c.isDigit = true → Completable (w ++ [c])) : Promised w "digit" "number"
  /-- A parenthesis leads on. -/
  | parenthesis {c : Char} (hc : c = '(' ∨ c = ')') (h : Completable (w ++ [c])) :
      Promised w (Text.quote (String.singleton c)) "primary"
  /-- The letter that the text has bound leads on. -/
  | letter {c : Char} (hc : w.find? Char.isAlpha = some c) (h : Completable (w ++ [c])) :
      Promised w (Text.quote (String.singleton c)) "variable"

theorem completable_of_derivation {d : Derivation .sum} {cs more : List Char} (proper : d.Proper)
    (uniform : Uniform none d.text) (h : d.text = cs ++ more) : Completable cs :=
  ⟨more, _, h ▸ parse_of_derivation proper uniform⟩

/-- A character that is awaited leads on, unless it is a letter other than the one that is bound. -/
theorem Awaits.completable {w : List Char} {k : CharClass} {rule : String} {c : Char}
    (h : Awaits .sum none w k rule) (uniform : Uniform none w) (hk : k.contains c = true)
    (hletter : rule = "variable" → c.isAlpha = true) (hc : Uniform (nameAfter none w) [c]) :
    Completable (w ++ [c]) := by
  obtain ⟨d, v, proper, hv, hd⟩ := h.completed c hk hletter
  rw [List.append_cons] at hd
  refine completable_of_derivation proper ?_ hd
  rw [hd]
  exact uniform_append.mpr ⟨uniform_append.mpr ⟨uniform, hc⟩, uniform_of_noLetters hv⟩

theorem uniform_of_not_isAlpha {name : Option String} {c : Char} (h : c.isAlpha = false) :
    Uniform name [c] :=
  uniform_of_noLetters (noLetters_singleton h)

theorem description_singleton {text : String} {c : Char} (h : text = String.singleton c) :
    (CharClass.literal text).description = Text.quote (String.singleton c) :=
  congrArg Text.quote h

theorem Awaits.promised {w : List Char} {k : CharClass} {rule : String}
    (h : Awaits .sum none w k rule) (uniform : Uniform none w) :
    Promised w k.description rule := by
  rcases h.demand with _ | _ | _ | hname
  · rw [CharClass.openParen, description_singleton (c := '(') (by decide)]
    refine .parenthesis (.inl rfl) (h.completable uniform (by simp) nofun ?_)
    exact uniform_of_not_isAlpha rfl
  · rw [CharClass.closeParen, description_singleton (c := ')') (by decide)]
    refine .parenthesis (.inr rfl) (h.completable uniform (by simp) nofun ?_)
    exact uniform_of_not_isAlpha rfl
  · refine .digit fun c hdigit ↦ h.completable uniform (by simpa using hdigit) nofun ?_
    exact uniform_of_not_isAlpha (not_isAlpha_of_isDigit hdigit)
  · have hfind : (w.find? Char.isAlpha).map String.singleton = some _ := hname
    obtain ⟨c, hc, rfl⟩ := Option.map_eq_some_iff.mp hfind
    have halpha : c.isAlpha = true := List.find?_some hc
    have hself : (CharClass.literal (String.singleton c)).contains c = true := by
      rw [CharClass.contains_literal_singleton, beq_self_eq_true]
    refine .letter hc (h.completable uniform hself (fun _ ↦ halpha) ?_)
    exact uniform_singleton fun name hname' ↦ Option.some.inj (hname'.symm.trans hname)

/-- What a rejected text is blamed for not going on with leads on from the place of the blame. -/
theorem Rejected.promised {cs : List Char} {blame : Blame} {name : Option String}
    (h : Rejected none cs blame name) :
    ∃ p expected rule, blame = ⟨p, [.token expected rule]⟩ ∧
      Promised (cs.take p) expected rule := by
  cases h with
  | @awaited w rest k rule htext uniform awaits hk =>
    refine ⟨w.length, k.description, rule, rfl, ?_⟩
    rw [htext, List.take_left]
    exact awaits.promised uniform
  | @trailing d rest htext hrest proper uniform =>
    refine ⟨d.text.length, endOfInput, "expression", rfl, ?_⟩
    rw [htext, List.take_left]
    exact .endOfInput (parse_of_derivation proper uniform)

/-- **What an error says is expected leads on**: at its position either the text was complete, or
any digit could follow, or the parenthesis or bound letter that it names. -/
theorem parse_error_promised {text : String} {e : ParseError}
    (h : Expression.parse text = .error e) :
    ∃ p : Nat, e.position = p ∧
      Promised ((Text.stripBlanks text).toList.take p) e.expected e.rule := by
  obtain ⟨d, -, -, -, hrun⟩ | ⟨blame, name, hrejected, hrun⟩ := parse_cases text
  · rw [hrun] at h
    cases h
  · obtain ⟨p, expected, rule, rfl, hpromised⟩ := hrejected.promised
    rw [hrun, ofBlame_token] at h
    obtain rfl := Except.error.inj h
    exact ⟨p, rfl, hpromised⟩

/-- In a second variable's place the first one is expected. -/
theorem parse_error_promised_of_second_letter :
    ∃ e : ParseError, Expression.parse "3 (x + y" = .error e ∧ e.position = 4 ∧
      Promised "3(x+".toList (Text.quote "x") "variable" := by
  have h : Expression.parse "3 (x + y"
      = .error (.ofBlame "3(x+y" ⟨4, [.token (CharClass.literal "x").description "variable"]⟩) :=
    parse_of_parseTree_error (show parseTree none _ = (_, some "x") from rfl)
  rw [ofBlame_token] at h
  obtain ⟨p, hp, hpromised⟩ := parse_error_promised h
  obtain rfl : 4 = p := Int.ofNat.inj hp
  exact ⟨_, h, rfl, hpromised⟩

end Grammar

end ExprSampler
