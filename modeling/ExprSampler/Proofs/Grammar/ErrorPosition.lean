import ExprSampler.Proofs.Grammar.Texts

/-!
# Where errors are placed

The position of an error is the place where the text stops being the beginning of any expression.
What stands before it can be completed, and once the character at it has been read, nothing that
follows can change the report any more: the parser never looks further than that character.
-/

namespace ExprSampler

namespace Grammar

open ExprSampler.Parser

/-! ## One requirement -/

theorem ofBlame_token (text : String) (p : Nat) (expected rule : String) :
    ParseError.ofBlame text ⟨p, [.token expected rule]⟩
      = ⟨expected, text.toList[p]?.map String.singleton, rule, p, text⟩ := by
  simp [ParseError.ofBlame, ParseError.ofRequirements, ParseError.tokens]

theorem Rejected.exists_token {bound name : Option String} {cs : List Char} {blame : Blame}
    (h : Rejected bound cs blame name) :
    ∃ p expected rule, blame = ⟨p, [.token expected rule]⟩ ∧ p ≤ cs.length := by
  cases h with
  | awaited htext uniform awaits hk => exact ⟨_, _, _, rfl, by simp [htext]⟩
  | trailing htext hrest proper uniform => exact ⟨_, _, _, rfl, by simp [htext]⟩

/-! ## What stands before the position -/

theorem exists_isAlpha_of_nameAfter {w : List Char} {v : String}
    (h : nameAfter none w = some v) : ∃ c : Char, c.isAlpha = true ∧ v = String.singleton c := by
  have h : (w.find? Char.isAlpha).map String.singleton = some v := h
  obtain ⟨c, hc, rfl⟩ := Option.map_eq_some_iff.mp h
  exact ⟨c, List.find?_some hc, rfl⟩

/-- Of the characters that are awaited there is one that keeps the letters of the text one. -/
theorem Awaits.exists_uniform {s : Symbol} {w : List Char} {k : CharClass} {rule : String}
    (h : Awaits s none w k rule) (uniform : Uniform none w) :
    ∃ c : Char, k.contains c = true ∧ (rule = "variable" → c.isAlpha = true) ∧
      Uniform none (w ++ [c]) := by
  have hother : ∀ c : Char, c.isAlpha = false → Uniform none (w ++ [c]) := fun c hc ↦
    uniform_append.mpr ⟨uniform, uniform_of_noLetters (noLetters_singleton hc)⟩
  rcases h.demand with _ | _ | _ | hname
  · exact ⟨'(', by simp, by simp, hother '(' rfl⟩
  · exact ⟨')', by simp, by simp, hother ')' rfl⟩
  · exact ⟨'0', by simp, by simp, hother '0' rfl⟩
  · obtain ⟨c, hc, rfl⟩ := exists_isAlpha_of_nameAfter hname
    refine ⟨c, by simp [CharClass.contains_literal_singleton], fun _ ↦ hc, ?_⟩
    refine uniform_append.mpr ⟨uniform, uniform_singleton fun name hname' ↦ ?_⟩
    rw [hname] at hname'
    exact (Option.some.inj hname').symm

theorem Rejected.exists_derivation {name : Option String} {cs : List Char} {blame : Blame}
    (h : Rejected none cs blame name) :
    ∃ (d : Derivation .sum) (more : List Char), d.Proper ∧ Uniform none d.text ∧
      d.text = cs.take blame.position ++ more := by
  cases h with
  | @awaited w rest k rule htext uniform awaits hk =>
    obtain ⟨c, hc, hletter, hu⟩ := awaits.exists_uniform uniform
    obtain ⟨d, v, proper, hv, hd⟩ := awaits.completed c hc hletter
    refine ⟨d, c :: v, proper, ?_, by simp [hd, htext]⟩
    rw [hd, ← List.singleton_append, ← List.append_assoc]
    exact uniform_append.mpr ⟨hu, uniform_of_noLetters hv⟩
  | @trailing d rest htext hrest proper uniform =>
    exact ⟨d, [], proper, uniform, by simp [htext]⟩

/-! ## What stands behind the position -/

theorem steady_whole (n : Nat) : Steady (whole n) :=
  (steady_rule .sum n).bind fun _ ↦ (Steady.requireEnd _).bind fun _ ↦ Steady.pure _

theorem whole_of_take_prefix {n m : Nat} {bound name : Option String} {cs cs' : List Char}
    {blame : Blame} (h : whole n bound ⟨0, cs⟩ = (.failed blame, name))
    (hn : Symbol.sum.need cs ≤ n) (hm : Symbol.sum.need cs' ≤ m)
    (hlt : blame.position < cs.length) (hcs : cs.take (blame.position + 1) <+: cs') :
    whole m bound ⟨0, cs'⟩ = (.failed blame, name) := by
  -- Both texts are read under one limit.
  rw [whole_eq_of_need_le bound hm (Nat.le_trans hm (Nat.le_max_right n m))]
  rw [whole_eq_of_need_le bound hn (Nat.le_trans hn (Nat.le_max_left n m))] at h
  obtain ⟨w, r, hrest, hpos, hsame⟩ := (steady_whole _).failed h
  dsimp only at hrest hpos hsame
  rw [Nat.zero_add] at hpos
  obtain ⟨r', rfl⟩ := hcs
  cases r with
  | nil =>
    rw [hrest, List.append_nil, hpos] at hlt
    exact absurd hlt (Nat.lt_irrefl _)
  | cons c r =>
    have htake : cs.take (blame.position + 1) = w ++ [c] := by
      rw [hrest, hpos, List.take_length_add_append, List.take_succ_cons, List.take_zero]
    rw [htake, List.append_assoc]
    exact hsame (c :: r') rfl

/-- **An error is placed exactly where the text stops being the beginning of an expression.** What
stands before the position can be completed to a text that is accepted; if a character stands at the
position, every text that goes on in the same way up to and with that character is rejected with the
same report. -/
theorem parse_error_position {text : String} {e : ParseError}
    (h : Expression.parse text = .error e) :
    ∃ p : Nat, e.position = p ∧ p ≤ (Text.stripBlanks text).toList.length ∧
      e.found = (Text.stripBlanks text).toList[p]?.map String.singleton ∧
      (e.found = none ↔ p = (Text.stripBlanks text).toList.length) ∧
      (∃ (more : List Char) (accepted : Expression),
        Expression.parse (String.ofList ((Text.stripBlanks text).toList.take p ++ more))
          = .ok accepted) ∧
      (p < (Text.stripBlanks text).toList.length → ∀ text' : String,
        (Text.stripBlanks text).toList.take (p + 1) <+: (Text.stripBlanks text').toList →
          Expression.parse text' = .error { e with text := Text.stripBlanks text' }) := by
  obtain ⟨d, proper, htext, uniform, -⟩ | ⟨blame, name, hrejected, hrun⟩ :=
    whole_cases none (Nat.le_refl (Symbol.sum.need (Text.stripBlanks text).toList))
  · rw [parse_of_parseTree (parseTree_of_derivation proper htext uniform)] at h
    cases h
  rw [parse_of_parseTree_error (parseTree_of_failed hrun (Nat.le_refl _))] at h
  obtain ⟨d, more, proper, uniform, hd⟩ := hrejected.exists_derivation
  obtain ⟨p, expected, rule, rfl, hp⟩ := hrejected.exists_token
  rw [ofBlame_token] at h
  obtain rfl := Except.error.inj h
  refine ⟨p, rfl, hp, rfl, ?_, ⟨more, _, hd ▸ parse_of_derivation proper uniform⟩, ?_⟩
  · rw [Option.map_eq_none_iff, List.getElem?_eq_none_iff]
    exact ⟨fun h ↦ Nat.le_antisymm hp h, fun h ↦ Nat.le_of_eq h.symm⟩
  · intro hlt text' htext'
    have hrun' := whole_of_take_prefix hrun (Nat.le_refl _) (Nat.le_refl _) hlt htext'
    rw [parse_of_parseTree_error (parseTree_of_failed hrun' (Nat.le_refl _)), ofBlame_token]
    -- The two texts agree at the position, so the same is found there.
    have hfound : (Text.stripBlanks text').toList[p]? = (Text.stripBlanks text).toList[p]? := by
      obtain ⟨rest, hrest⟩ := htext'
      rw [← hrest, List.getElem?_append_left, List.getElem?_take_of_lt (Nat.lt_succ_self p)]
      rw [List.length_take]
      omega
    rw [hfound]

/-- A second sign where a factor is awaited. -/
theorem parse_error_position_of_second_sign :
    ∃ e : ParseError, Expression.parse "2 * * x" = .error e ∧ e.position = 2 ∧
      (∃ (more : List Char) (accepted : Expression),
        Expression.parse (String.ofList ("2*".toList ++ more)) = .ok accepted) ∧
      ∃ e' : ParseError, Expression.parse "2**" = .error e' ∧ e'.position = 2 := by
  have h : Expression.parse "2 * * x"
      = .error (.ofBlame "2**x" ⟨2, [.token CharClass.openParen.description "primary"]⟩) :=
    parse_of_parseTree_error (show parseTree none _ = (_, none) from rfl)
  obtain ⟨p, hp, -, -, -, hmore, hsame⟩ := parse_error_position h
  rw [ofBlame_token] at h hp hsame
  obtain rfl : 2 = p := Int.ofNat.inj hp
  have hlonger : Expression.parse "2**" = _ := hsame (by decide) "2**" ⟨[], by decide⟩
  exact ⟨_, h, rfl, hmore, _, hlonger, rfl⟩

end Grammar

end ExprSampler
