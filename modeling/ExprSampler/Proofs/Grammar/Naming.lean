import ExprSampler.Expr.Grammar

/-!
# The name of the variable

Reading a text binds the variable to the first letter in it, unless a name is bound already. A text
is *uniform* if every letter in it is the name that is bound after it; both notions go along with
putting texts together, so they can be followed through a parser step by step.
-/

namespace ExprSampler

namespace Grammar

/-- The name bound after reading a text. -/
def nameAfter (bound : Option String) (cs : List Char) : Option String :=
  bound.or ((cs.find? Char.isAlpha).map String.singleton)

/-- Every letter of the text is the name bound after it. -/
def Uniform (bound : Option String) (cs : List Char) : Prop :=
  ∀ c ∈ cs, c.isAlpha = true → nameAfter bound cs = some (String.singleton c)

/-- A text has no letters. -/
def NoLetters (cs : List Char) : Prop :=
  ∀ c ∈ cs, c.isAlpha = false

variable {bound : Option String} {w v : List Char}

@[simp] theorem nameAfter_some (name : String) (cs : List Char) :
    nameAfter (some name) cs = some name := rfl

@[simp] theorem nameAfter_nil (bound : Option String) : nameAfter bound [] = bound := by
  simp [nameAfter]

theorem nameAfter_append (bound : Option String) (w v : List Char) :
    nameAfter bound (w ++ v) = nameAfter (nameAfter bound w) v := by
  simp [nameAfter, Option.or_assoc, List.find?_append, Option.map_or]

theorem nameAfter_of_noLetters (h : NoLetters w) : nameAfter bound w = bound := by
  have hfind : w.find? Char.isAlpha = none :=
    List.find?_eq_none.mpr fun c hc ↦ by rw [h c hc]; exact Bool.false_ne_true
  simp [nameAfter, hfind]

/-- What comes after a letter does not change the name any more. -/
theorem nameAfter_append_of_mem {c : Char} (hc : c ∈ w) (halpha : c.isAlpha = true) :
    nameAfter bound (w ++ v) = nameAfter bound w := by
  cases bound with
  | some name => rfl
  | none =>
    have hfind : (w.find? Char.isAlpha).isSome := List.find?_isSome.mpr ⟨c, hc, halpha⟩
    obtain ⟨first, hfirst⟩ := Option.isSome_iff_exists.mp hfind
    simp [nameAfter, List.find?_append, hfirst]

theorem uniform_of_noLetters (h : NoLetters w) : Uniform bound w := fun c hc halpha ↦ by
  rw [h c hc] at halpha
  cases halpha

theorem uniform_nil (bound : Option String) : Uniform bound [] :=
  uniform_of_noLetters fun _ hc ↦ absurd hc List.not_mem_nil

theorem uniform_append :
    Uniform bound (w ++ v) ↔ Uniform bound w ∧ Uniform (nameAfter bound w) v := by
  constructor
  · intro h
    refine ⟨fun c hc halpha ↦ ?_, fun c hc halpha ↦ ?_⟩
    · rw [← nameAfter_append_of_mem (v := v) hc halpha]
      exact h c (List.mem_append_left _ hc) halpha
    · rw [← nameAfter_append]
      exact h c (List.mem_append_right _ hc) halpha
  · rintro ⟨hw, hv⟩ c hc halpha
    rcases List.mem_append.mp hc with hc | hc
    · rw [nameAfter_append_of_mem hc halpha]
      exact hw c hc halpha
    · rw [nameAfter_append]
      exact hv c hc halpha

theorem noLetters_or_exists (cs : List Char) : NoLetters cs ∨ ∃ c ∈ cs, c.isAlpha = true := by
  by_cases h : ∃ c ∈ cs, c.isAlpha = true
  · exact .inr h
  · exact .inl fun c hc ↦ Bool.eq_false_iff.mpr fun halpha ↦ h ⟨c, hc, halpha⟩

theorem noLetters_singleton {c : Char} (h : c.isAlpha = false) : NoLetters [c] := fun c' hc' ↦ by
  rw [List.mem_singleton.mp hc', h]

theorem nameAfter_cons {c : Char} (h : c.isAlpha = false) (cs : List Char) :
    nameAfter bound (c :: cs) = nameAfter bound cs := by
  rw [← List.singleton_append, nameAfter_append, nameAfter_of_noLetters (noLetters_singleton h)]

theorem uniform_cons {c : Char} (h : c.isAlpha = false) {cs : List Char} :
    Uniform bound (c :: cs) ↔ Uniform bound cs := by
  rw [← List.singleton_append, uniform_append, nameAfter_of_noLetters (noLetters_singleton h)]
  exact and_iff_right (uniform_of_noLetters (noLetters_singleton h))

theorem uniform_singleton {c : Char} (h : ∀ name ∈ bound, name = String.singleton c) :
    Uniform bound [c] := by
  intro c' hc' halpha
  obtain rfl := List.mem_singleton.mp hc'
  cases bound with
  | none => simp [nameAfter, halpha]
  | some name => rw [nameAfter_some, h name rfl]

theorem nameAfter_singleton {c : Char} (halpha : c.isAlpha = true) (h : Uniform bound [c]) :
    nameAfter bound [c] = some (String.singleton c) :=
  h c List.mem_cons_self halpha

theorem singleton_inj {c c' : Char} (h : String.singleton c = String.singleton c') : c = c' := by
  have := congrArg String.toList h
  simpa using this

/-- A text is uniform if all letters in it are one, and that one is the name bound before, if there
was one. -/
theorem uniform_iff {cs : List Char} :
    Uniform bound cs ↔
      (∀ c ∈ cs, ∀ c' ∈ cs, c.isAlpha = true → c'.isAlpha = true → c = c') ∧
        ∀ name ∈ bound, ∀ c ∈ cs, c.isAlpha = true → name = String.singleton c := by
  constructor
  · intro h
    refine ⟨fun c hc c' hc' halpha halpha' ↦ ?_, fun name hname c hc halpha ↦ ?_⟩
    · have hsame := (h c hc halpha).symm.trans (h c' hc' halpha')
      exact singleton_inj (Option.some.inj hsame)
    · obtain rfl : bound = some name := hname
      exact Option.some.inj (h c hc halpha)
  · rintro ⟨hone, hname⟩ c hc halpha
    cases bound with
    | some name => rw [nameAfter_some, hname name rfl c hc halpha]
    | none =>
      have hfind : (cs.find? Char.isAlpha).isSome := List.find?_isSome.mpr ⟨c, hc, halpha⟩
      obtain ⟨first, hfirst⟩ := Option.isSome_iff_exists.mp hfind
      have hsame : first = c :=
        hone first (List.mem_of_find?_eq_some hfirst) c hc (List.find?_some hfirst) halpha
      simp [nameAfter, hfirst, hsame]

end Grammar

end ExprSampler
