import ExprSampler.Expression
import ExprSampler.Proofs.Grammar.Agreement

/-!
# Texts with blanks

Expressions are read from texts in which blanks count nowhere. The grammar knows no blanks: its
texts are made of letters, digits and eight signs, so clearing them of blanks changes nothing, and
what is said about texts without blanks carries over to all texts.
-/

namespace ExprSampler

namespace Grammar

/-! ## The alphabet -/

/-- The characters that texts of the grammar are made of. -/
def inAlphabet (c : Char) : Bool :=
  c.isAlpha || c.isDigit || ['+', '-', '*', '/', '^', '.', '(', ')'].contains c

theorem inAlphabet_of_isAlpha {c : Char} (h : c.isAlpha = true) : inAlphabet c = true := by
  simp [inAlphabet, h]

theorem inAlphabet_of_isDigit {c : Char} (h : c.isDigit = true) : inAlphabet c = true := by
  simp [inAlphabet, h]

theorem toNat_of_inAlphabet {c : Char} (h : inAlphabet c = true) :
    40 ≤ c.toNat ∧ c.toNat ≤ 122 := by
  simp only [inAlphabet, Bool.or_eq_true, List.contains_iff_mem, List.mem_cons, List.not_mem_nil,
    or_false] at h
  rcases h with (halpha | hdigit) | hsign
  · have hletter := toNat_of_isAlpha halpha
    omega
  · have hdigit := toNat_of_isDigit hdigit
    omega
  · rcases hsign with rfl | rfl | rfl | rfl | rfl | rfl | rfl | rfl <;> decide

theorem not_isBlank_of_inAlphabet {c : Char} (h : inAlphabet c = true) :
    Text.isBlank c = false := by
  have hrange := toNat_of_inAlphabet h
  refine Bool.eq_false_iff.mpr fun hblank ↦ ?_
  rw [Text.isBlank, Text.inRanges_iff] at hblank
  simp only [Text.blankRanges, List.mem_cons, List.not_mem_nil, or_false] at hblank
  obtain ⟨r, hr, hlo, hhi⟩ := hblank
  rcases hr with rfl | rfl | rfl | rfl | rfl | rfl | rfl | rfl | rfl | rfl <;>
    (dsimp only at hlo hhi; omega)

theorem Derivation.inAlphabet_of_mem_text {s : Symbol} (d : Derivation s) :
    d.Proper → ∀ c ∈ d.text, inAlphabet c = true := by
  induction d with
  | sum first rest ih ih' =>
    rintro h c hc
    exact (List.mem_append.mp hc).elim (ih h.1 c) (ih' h.2 c)
  | noAddend => exact fun _ c hc ↦ absurd hc List.not_mem_nil
  | addend op operand rest ih ih' =>
    rintro h c hc
    rcases List.mem_cons.mp hc with rfl | hc
    · cases op <;> rfl
    · exact (List.mem_append.mp hc).elim (ih h.1 c) (ih' h.2 c)
  | term first rest ih ih' =>
    rintro h c hc
    exact (List.mem_append.mp hc).elim (ih h.1 c) (ih' h.2 c)
  | noFactor => exact fun _ c hc ↦ absurd hc List.not_mem_nil
  | multiplicand op operand rest ih ih' =>
    rintro h c hc
    rcases List.mem_cons.mp hc with rfl | hc
    · cases op <;> rfl
    · exact (List.mem_append.mp hc).elim (ih h.1 c) (ih' h.2 c)
  | juxtaposed operand rest ih ih' =>
    rintro h c hc
    exact (List.mem_append.mp hc).elim (ih h.1 c) (ih' h.2.2 c)
  | factor signs operand ih =>
    rintro h c hc
    rcases List.mem_append.mp hc with hc | hc
    · rw [List.eq_of_mem_replicate hc]
      rfl
    · exact ih h c hc
  | plain operand ih => exact fun h ↦ ih h
  | raised operand exponent ih ih' =>
    rintro h c hc
    rcases List.mem_append.mp hc with hc | hc
    · exact ih h.1 c hc
    · rcases List.mem_cons.mp hc with rfl | hc
      · rfl
      · exact ih' h.2 c hc
  | letter name =>
    rintro h c hc
    obtain rfl := List.mem_singleton.mp hc
    exact inAlphabet_of_isAlpha h
  | number whole fraction =>
    rintro h c hc
    rcases List.mem_append.mp hc with hc | hc
    · exact inAlphabet_of_isDigit (h.1.2 c hc)
    · cases fraction with
      | none => cases hc
      | some digits =>
        rcases List.mem_cons.mp hc with rfl | hc
        · rfl
        · exact inAlphabet_of_isDigit ((h.2 digits rfl).2 c hc)
  | group inner ih =>
    rintro h c hc
    rcases List.mem_cons.mp hc with rfl | hc
    · rfl
    · rcases List.mem_append.mp hc with hc | hc
      · exact ih h c hc
      · rw [List.mem_singleton.mp hc]
        rfl

/-! ## Reading expressions -/

theorem stripBlanks_ofList {cs : List Char} (h : ∀ c ∈ cs, Text.isBlank c = false) :
    Text.stripBlanks (String.ofList cs) = String.ofList cs := by
  have hkept : ∀ c ∈ cs, (!Text.isBlank c) = true := fun c hc ↦ by rw [h c hc]; rfl
  rw [Text.stripBlanks, String.toList_ofList, List.filter_eq_self.mpr hkept]

theorem Derivation.stripBlanks_text {s : Symbol} {d : Derivation s} (h : d.Proper) :
    Text.stripBlanks (String.ofList d.text) = String.ofList d.text :=
  stripBlanks_ofList fun c hc ↦ not_isBlank_of_inAlphabet (d.inAlphabet_of_mem_text h c hc)

theorem parse_of_parseTree {text : String} {root : Node} {input : Option String}
    (h : parseTree none (Text.stripBlanks text) = (.ok root, input)) :
    Expression.parse text = .ok ⟨root, input, Text.stripBlanks text⟩ := by
  rw [parseTree] at h
  rw [Expression.parse, Expression.parseWithin, h]

theorem parse_of_parseTree_error {text : String} {e : ParseError} {input : Option String}
    (h : parseTree none (Text.stripBlanks text) = (.error e, input)) :
    Expression.parse text = .error e := by
  rw [parseTree] at h
  rw [Expression.parse, Expression.parseWithin, h]

theorem parse_of_derivation {d : Derivation .sum} (proper : d.Proper)
    (uniform : Uniform none d.text) :
    Expression.parse (String.ofList d.text)
      = .ok ⟨d.tree, nameAfter none d.text, String.ofList d.text⟩ := by
  have hstrip := Derivation.stripBlanks_text proper
  have htext : d.text = (Text.stripBlanks (String.ofList d.text)).toList := by
    rw [hstrip, String.toList_ofList]
  have hrun := parseTree_of_derivation proper htext (htext ▸ uniform)
  rw [← htext] at hrun
  rw [parse_of_parseTree hrun, hstrip]

/-- A text is that of a derivation, apart from its blanks, or it is rejected. -/
theorem parse_cases (text : String) :
    (∃ d : Derivation .sum, d.Proper ∧ d.text = (Text.stripBlanks text).toList ∧
        Uniform none d.text ∧
        Expression.parse text = .ok ⟨d.tree, nameAfter none d.text, Text.stripBlanks text⟩)
      ∨ ∃ blame name, Rejected none (Text.stripBlanks text).toList blame name ∧
        Expression.parse text = .error (.ofBlame (Text.stripBlanks text) blame) := by
  obtain ⟨d, proper, htext, uniform, hrun⟩ | ⟨blame, name, hrejected, hrun⟩ :=
    parseTree_cases none (Text.stripBlanks text)
  · rw [← htext] at uniform hrun
    exact .inl ⟨d, proper, htext, uniform, parse_of_parseTree hrun⟩
  · exact .inr ⟨blame, name, hrejected, parse_of_parseTree_error hrun⟩

/-- An accepted text is that of a derivation, which says what was read. -/
theorem exists_derivation_of_parse {text : String} {e : Expression}
    (h : Expression.parse text = .ok e) :
    ∃ d : Derivation .sum, d.Proper ∧ d.text = (Text.stripBlanks text).toList ∧
      Uniform none d.text ∧ e = ⟨d.tree, nameAfter none d.text, Text.stripBlanks text⟩ := by
  obtain ⟨d, proper, htext, uniform, hrun⟩ | ⟨blame, name, -, hrun⟩ := parse_cases text
  · exact ⟨d, proper, htext, uniform, Except.ok.inj (h.symm.trans hrun)⟩
  · rw [hrun] at h
    cases h

end Grammar

end ExprSampler
