import ExprSampler.Proofs.Grammar.Shapes
import ExprSampler.Proofs.Grammar.Texts

/-!
# Printing and reading

Reading the canonical text of a tree gives the tree back exactly if the tree is shaped: what is read
is always shaped, and the canonical text of a shaped tree is that of a derivation. The name of the
variable comes back where there is a variable. So reading and printing a text once reaches the
canonical text, which then stays as it is.
-/

namespace ExprSampler

namespace Grammar

/-! ## The name of the variable -/

theorem Uniform.of_some {name : String} {cs : List Char} (h : Uniform (some name) cs) :
    Uniform none cs :=
  uniform_iff.mpr ⟨(uniform_iff.mp h).1, nofun⟩

theorem nameAfter_of_uniform_some {name : String} {cs : List Char} (h : Uniform (some name) cs) :
    nameAfter none cs = if cs.any Char.isAlpha then some name else none := by
  obtain hnone | ⟨c, hc, halpha⟩ := noLetters_or_exists cs
  · rw [any_of_noLetters hnone, nameAfter_of_noLetters hnone]
    rfl
  · have hname : some name = some (String.singleton c) := h c hc halpha
    rw [List.any_eq_true.mpr ⟨c, hc, halpha⟩, h.of_some c hc halpha, hname]
    rfl

theorem exists_shownName {cs : List Char} (h : Uniform none cs) :
    ∃ v : Char, v.isAlpha = true ∧ Uniform (some (String.singleton v)) cs ∧
      shownName (nameAfter none cs) = shownName (some (String.singleton v)) := by
  obtain hnone | ⟨c, hc, halpha⟩ := noLetters_or_exists cs
  · rw [nameAfter_of_noLetters hnone]
    exact ⟨'x', rfl, uniform_of_noLetters hnone, rfl⟩
  · refine ⟨c, halpha, fun c' hc' halpha' ↦ ?_, by rw [h c hc halpha]⟩
    rw [nameAfter_some, ← h c hc halpha, h c' hc' halpha']

/-! ## Reading canonical texts -/

theorem canonical_singleton (t : Node) (v : Char) :
    t.canonical (some (String.singleton v)) = String.ofList (t.chars [v]) := by
  have hshown : (shownName (some (String.singleton v))).toList = [v] := by
    simp [shownName]
  rw [Node.canonical, hshown]

theorem parse_canonical {t : Node} {v : Char} (hv : v.isAlpha = true) (h : Shaped .sum t) :
    Expression.parse (t.canonical (some (String.singleton v)))
      = .ok ⟨t, if t.hasVar then some (String.singleton v) else none,
          t.canonical (some (String.singleton v))⟩ := by
  obtain ⟨d, proper, htree, htext, uniform⟩ := h.exists_derivation hv
  have htext : d.text = t.chars [v] := htext
  have hvar : d.text.any Char.isAlpha = t.hasVar :=
    (d.any_isAlpha_text proper).trans (congrArg Node.hasVar htree)
  have hrun := parse_of_derivation proper uniform.of_some
  rw [nameAfter_of_uniform_some uniform, hvar, htree, htext] at hrun
  rw [canonical_singleton, hrun]

/-- What is read is shaped, and its canonical text is written with a letter that is the name of the
variable if there is a variable. -/
theorem shaped_of_parse {text : String} {e : Expression} (h : Expression.parse text = .ok e) :
    Shaped .sum e.root ∧ ∃ v : Char, v.isAlpha = true ∧
      e.canonical = e.root.canonical (some (String.singleton v)) ∧
      e.input = if e.root.hasVar then some (String.singleton v) else none := by
  obtain ⟨d, proper, -, uniform, rfl⟩ := exists_derivation_of_parse h
  obtain ⟨v, hv, uniform', hshown⟩ := exists_shownName uniform
  refine ⟨d.shaped_tree proper, v, hv, ?_, ?_⟩
  · rw [Expression.canonical, Node.canonical, hshown, Node.canonical]
  · exact (nameAfter_of_uniform_some uniform').trans (by rw [d.any_isAlpha_text proper]; rfl)

/-- **Printing and reading a tree gives it back exactly if it is shaped**, with the variable if it
has one; so the canonical text of what was read is read as the same tree in the same variable, and
its canonical text is itself. -/
theorem parse_canonical_iff_shaped :
    (∀ (t : Node) (v : Char), v.isAlpha = true →
      ((∃ e, Expression.parse (t.canonical (some (String.singleton v))) = .ok e ∧ e.root = t) ↔
        Shaped .sum t) ∧
      ∀ e, Expression.parse (t.canonical (some (String.singleton v))) = .ok e → e.root = t →
        e.input = if t.hasVar then some (String.singleton v) else none) ∧
    ∀ (text : String) (e : Expression), Expression.parse text = .ok e →
      ∃ e', Expression.parse e.canonical = .ok e' ∧ e'.root = e.root ∧ e'.input = e.input ∧
        e'.canonical = e.canonical := by
  refine ⟨fun t v hv ↦ ⟨⟨?_, fun h ↦ ⟨_, parse_canonical hv h, rfl⟩⟩, ?_⟩, fun text e h ↦ ?_⟩
  · rintro ⟨e, h, rfl⟩
    exact (shaped_of_parse h).1
  · -- The tree was read, so it is shaped and its canonical text is read in full.
    rintro e h rfl
    have hrun := parse_canonical hv (shaped_of_parse h).1
    exact congrArg Expression.input (Except.ok.inj (h.symm.trans hrun))
  · obtain ⟨hshaped, v, hv, hcanonical, hinput⟩ := shaped_of_parse h
    have hrun := parse_canonical hv hshaped
    rw [← hcanonical, ← hinput] at hrun
    exact ⟨_, hrun, rfl, rfl, rfl⟩

/-- A negated variable, and a text that leaves out a sign and writes two that change nothing. -/
theorem parse_canonical_iff_shaped_of_letter :
    (∃ e, Expression.parse "-x" = .ok e ∧ e.input = some "x") ∧
      ∃ e e', Expression.parse "x(--x)" = .ok e ∧ Expression.parse "x*(x)" = .ok e' ∧
        e'.root = e.root := by
  have hshaped : Shaped .sum (Node.sum (.product (.signed true (.power .var none)) []) []) :=
    .sum (.term (.factor true (.plain .var)) .noFactor) .noAddend
  obtain ⟨hiff, hinput⟩ := parse_canonical_iff_shaped.1 _ 'x' rfl
  obtain ⟨e, he, hroot⟩ := hiff.mpr hshaped
  have h : Expression.parse "x(--x)" = _ :=
    parse_of_parseTree (show parseTree none _ = (.ok _, some "x") from rfl)
  obtain ⟨e', he', hroot', -, -⟩ := parse_canonical_iff_shaped.2 "x(--x)" _ h
  exact ⟨⟨e, he, hinput e he hroot⟩, _, e', h, he', hroot'⟩

end Grammar

end ExprSampler
