import ExprSampler.Proofs.Grammar.Expectations
import ExprSampler.Proofs.Grammar.RoundTrip
import ExprSampler.Proofs.Parser.Mirrored

/-!
# Renaming the variable

Permuting the letters of a text permutes the name of the variable, and nothing else changes: the
same texts are accepted, with the same trees; those that are rejected are so at the same place and
for the same reason. Trees do not know the name of their variable, so what is left to say of
accepted texts is how their canonical texts are written.

The rules of the grammar are mirrored all at once, by induction on their nesting limit. The rule for
the variable is the one place where letters are compared; that goes the same way before renamed
letters because a permutation keeps different letters different.
-/

namespace ExprSampler

/-- The expression of the renamed text: the same tree under another name. -/
def Expression.rename (r : Renaming) (e : Expression) : Expression :=
  ⟨e.root, e.input.map r.text, r.text e.source⟩

/-- The report on the renamed text. What was expected is renamed where it is the name of the
variable; other descriptions contain letters as well, but do not speak of them. -/
def ParseError.rename (r : Renaming) (e : ParseError) : ParseError :=
  { e with
    expected := if e.rule = "variable" then r.text e.expected else e.expected
    found := e.found.map r.text
    text := r.text e.text }

namespace Grammar

open ExprSampler.Parser

variable {r : Renaming} {n : Nat}

/-! ## Classes without letters -/

theorem letterFree_digit : LetterFree .digit := fun c h ↦
  not_isAlpha_of_isDigit (by simpa using h)

theorem letterFree_literal {c : Char} (h : c.isAlpha = false) :
    LetterFree (.literal (String.singleton c)) := fun c' hc ↦ by
  rw [CharClass.contains_literal_singleton, beq_iff_eq] at hc
  rw [hc, h]

theorem letterFree_plus : LetterFree .plus := letterFree_literal (c := '+') rfl

theorem letterFree_minus : LetterFree .minus := letterFree_literal (c := '-') rfl

theorem letterFree_times : LetterFree .times := letterFree_literal (c := '*') rfl

theorem letterFree_divide : LetterFree .divide := letterFree_literal (c := '/') rfl

theorem letterFree_caret : LetterFree .caret := letterFree_literal (c := '^') rfl

theorem letterFree_openParen : LetterFree .openParen := letterFree_literal (c := '(') rfl

theorem letterFree_closeParen : LetterFree .closeParen := letterFree_literal (c := ')') rfl

theorem letterFree_decimalPoint : LetterFree .decimalPoint := letterFree_literal (c := '.') rfl

/-! ## Mirrored rules -/

theorem mirrors_addend {term : Parser Node} (h : Mirrors r term term) :
    Mirrors r (addend term) (addend term) :=
  (Mirrors.skip? letterFree_plus).bind fun _ ↦ (h.bind fun _ ↦ Mirrors.pure _).ite <|
    (Mirrors.skip? letterFree_minus).bind fun _ ↦
      (h.bind fun _ ↦ Mirrors.pure _).ite (Mirrors.pure _)

theorem mirrors_multiplies : Mirrors r multiplies multiplies := by
  refine (Mirrors.skip? letterFree_times).bind fun _ ↦ (Mirrors.pure _).ite (Mirrors.nextIs ?_)
  intro k hk
  rcases List.mem_cons.mp hk with rfl | hk
  · exact letterFree_openParen.keepsClass
  · rw [List.mem_singleton.mp hk]
    exact keepsClass_letter

theorem mirrors_multiplicand {factor : Parser Node} (h : Mirrors r factor factor) :
    Mirrors r (multiplicand factor) (multiplicand factor) :=
  mirrors_multiplies.bind fun _ ↦ (h.bind fun _ ↦ Mirrors.pure _).ite <|
    (Mirrors.skip? letterFree_divide).bind fun _ ↦
      (h.bind fun _ ↦ Mirrors.pure _).ite (Mirrors.pure _)

theorem mirrors_digits : Mirrors r digits digits :=
  (Mirrors.require letterFree_digit (by decide)).bind fun _ ↦
    (Mirrors.takeAll letterFree_digit).bind fun _ ↦ Mirrors.pure _

theorem mirrors_numeral : Mirrors r numeral numeral :=
  mirrors_digits.bind fun _ ↦ (Mirrors.skip? letterFree_decimalPoint).bind fun _ ↦
    (mirrors_digits.bind fun _ ↦ Mirrors.pure _).ite (Mirrors.pure _)

theorem mirrors_leaf {p : Parser Node} (h : Mirrors r p p) :
    ∀ n : Nat, Mirrors r (leaf p n) (leaf p n)
  | 0 => Mirrors.tooDeep
  | _ + 1 => h

/-- A letter is taken on both sides or refused on both. -/
theorem mirrored_letterOfVariable {bound bound' : Option String} (hname : SameName r bound bound')
    {c : Char} (halpha : c.isAlpha = true) (i : Nat) (cs : List Char) :
    Mirrored r (letterOfVariable bound ⟨i, c :: cs⟩)
      (letterOfVariable bound' ⟨i, (c :: cs).map r.char⟩) := by
  have halpha' : (r.char c).isAlpha = true := (r.isAlpha_char c).trans halpha
  have hreads : ∀ {bound : Option String} {c : Char} {cs : List Char}, c.isAlpha = true →
      (∀ name ∈ bound, name = String.singleton c) →
        letterOfVariable bound ⟨i, c :: cs⟩
          = (.done Node.var ⟨i + 1, cs⟩ none, some (String.singleton c)) := by
    intro bound c cs halpha hsame
    rw [letterOfVariable_of_uniform halpha (uniform_singleton hsame),
      nameAfter_singleton halpha (uniform_singleton hsame)]
  rw [List.map_cons]
  cases hname with
  | none =>
    have hfree : ∀ {c : Char}, ∀ name ∈ (none : Option String), name = String.singleton c :=
      fun name h ↦ absurd h (Option.not_mem_none name)
    rw [hreads halpha hfree, hreads halpha' hfree]
    exact .done Node.var (i + 1) cs (.letter halpha)
  | @letter d hd =>
    by_cases hcd : c = d
    · subst hcd
      have hself : ∀ c : Char, ∀ name ∈ some (String.singleton c), name = String.singleton c :=
        fun c name h ↦ (Option.some.inj h).symm
      rw [hreads halpha (hself c), hreads halpha' (hself _)]
      exact .done Node.var (i + 1) cs (.letter halpha)
    · -- Another letter is bound, and so it is after renaming.
      have hrefused : ∀ {c d : Char} {cs : List Char}, c ≠ d →
          (CharClass.literal (String.singleton d)).matchesNext (c :: cs).head? = false := by
        intro c d cs hne
        refine CharClass.matchesNext_eq_false fun c' hc' ↦ ?_
        obtain rfl := Option.some.inj hc'
        rw [CharClass.contains_literal_singleton]
        exact beq_false_of_ne hne
      have hcd' : r.char c ≠ r.char d := (r.char_inj).not.mpr hcd
      rw [letterOfVariable_some, letterOfVariable_some,
        bind_of_failed (requireSkip_of_not_matches (hrefused hcd) _ _ _),
        bind_of_failed (requireSkip_of_not_matches (hrefused hcd') _ _ _)]
      exact .failed i (.letter hd) (.letter hd)

/-- The rules under one nesting limit are mirrored. -/
structure MirroredRules (r : Renaming) (n : Nat) : Prop where
  sum : Mirrors r (Grammar.sum n) (Grammar.sum n)
  term : Mirrors r (Grammar.term n) (Grammar.term n)
  factor : Mirrors r (Grammar.factor n) (Grammar.factor n)
  base : Mirrors r (Grammar.base n) (Grammar.base n)
  primary : Mirrors r (Grammar.primary n) (Grammar.primary n)

/-- A letter leads to the rule for the variable, a digit to that for numbers, and anything else to
that for groups. -/
theorem mirrors_primary (h : Mirrors r (Grammar.sum n) (Grammar.sum n)) :
    Mirrors r (Grammar.primary (n + 1)) (Grammar.primary (n + 1)) := by
  have group : Mirrors r (do
        requireSkip .openParen "primary"
        let inner ← Grammar.sum n
        requireSkip .closeParen "primary"
        pure inner : Parser Node) (do
        requireSkip .openParen "primary"
        let inner ← Grammar.sum n
        requireSkip .closeParen "primary"
        pure inner : Parser Node) :=
    (Mirrors.requireSkip letterFree_openParen (by decide)).bind fun _ ↦ h.bind fun inner ↦
      (Mirrors.requireSkip letterFree_closeParen (by decide)).bind fun _ ↦ Mirrors.pure inner
  intro bound bound' hname i cs
  obtain ⟨c, cs, rfl, halpha⟩ | hletter := next_cases (fun c ↦ c.isAlpha = true) cs
  · have halpha' : (r.char c).isAlpha = true := (r.isAlpha_char c).trans halpha
    rw [List.map_cons, primary_of_letter halpha, primary_of_letter halpha']
    cases n with
    | zero => exact .tooDeep hname
    | succ n => exact mirrored_letterOfVariable hname halpha i cs
  obtain ⟨c, cs, rfl, hdigit⟩ | hdigit := next_cases (fun c ↦ c.isDigit = true) cs
  · have hfixed : r.char c = c := r.char_of_not_isAlpha (not_isAlpha_of_isDigit hdigit)
    have hleaf := mirrors_leaf (r := r) mirrors_numeral n hname i (c :: cs)
    rw [List.map_cons, hfixed] at hleaf ⊢
    rw [primary_of_digit hdigit, primary_of_digit hdigit]
    exact hleaf
  · have hleaf : ∀ c ∈ cs.head?, c.isAlpha = false ∧ c.isDigit = false := fun c hc ↦
      ⟨Bool.eq_false_iff.mpr (hletter c hc), Bool.eq_false_iff.mpr (hdigit c hc)⟩
    have hleaf' : ∀ c ∈ (cs.map r.char).head?, c.isAlpha = false ∧ c.isDigit = false := by
      cases cs with
      | nil => exact nofun
      | cons c cs =>
        have hfixed : r.char c = c := r.char_of_not_isAlpha (hleaf c rfl).1
        rw [List.map_cons, hfixed]
        exact hleaf
    rw [primary_of_no_leaf hleaf, primary_of_no_leaf hleaf']
    exact group hname i cs

theorem mirroredRules (r : Renaming) (n : Nat) : MirroredRules r n := by
  induction n with
  | zero =>
    exact ⟨Mirrors.tooDeep, Mirrors.tooDeep, Mirrors.tooDeep, Mirrors.tooDeep, Mirrors.tooDeep⟩
  | succ n ih =>
    refine ⟨?_, ?_, ?_, ?_, mirrors_primary ih.sum⟩
    · exact ih.term.bind fun first ↦ (mirrors_addend ih.term).many.bind fun rest ↦ Mirrors.pure _
    · exact ih.factor.bind fun first ↦
        (mirrors_multiplicand ih.factor).many.bind fun rest ↦ Mirrors.pure _
    · exact (Mirrors.takeAll letterFree_minus).bind fun signs ↦
        ih.base.bind fun inner ↦ Mirrors.pure _
    · exact ih.primary.bind fun operand ↦ (Mirrors.skip? letterFree_caret).bind fun caret ↦
        (ih.factor.bind fun exponent ↦ Mirrors.pure _).ite (Mirrors.pure _)

theorem mirrors_whole (r : Renaming) (n : Nat) : Mirrors r (whole n) (whole n) :=
  (mirroredRules r n).sum.bind fun root ↦
    (Mirrors.requireEnd (by decide)).bind fun _ ↦ Mirrors.pure root

/-! ## Reports -/

theorem getElem?_text (r : Renaming) (text : String) (p : Nat) :
    (r.text text).toList[p]?.map String.singleton
      = (text.toList[p]?.map String.singleton).map r.text := by
  rw [r.toList_text, List.getElem?_map, Option.map_map, Option.map_map]
  exact Option.map_congr fun c _ ↦ (r.text_singleton c).symm

/-- Of the printable characters it is enough to know that those between the space and the tilde are
among them. -/
theorem isPrintable_of_isAlpha {c : Char} (h : c.isAlpha = true) : Text.isPrintable c = true := by
  have hranges : ∀ range ∈ Text.unprintableRanges, range.2 < 0x20 ∨ 0x7F ≤ range.1 := by
    decide +kernel
  have hletter := toNat_of_isAlpha h
  rw [Text.isPrintable, Bool.not_eq_true']
  refine Bool.eq_false_iff.mpr fun hin ↦ ?_
  obtain ⟨range, hmem, hlo, hhi⟩ := Text.inRanges_iff.mp hin
  rcases hranges range hmem with hbefore | hafter <;> omega

theorem quote_letter {c : Char} (h : c.isAlpha = true) :
    (Text.quote (String.singleton c)).toList = ['\'', c, '\''] := by
  have hne : ∀ {sign : Char}, sign.isAlpha = false → c ≠ sign := by
    rintro sign hsign rfl
    rw [h] at hsign
    cases hsign
  have hfor : Text.quoteFor [c] = '\'' := by
    rw [Text.quoteFor, List.contains_cons, beq_false_of_ne (hne rfl).symm]
    rfl
  have hchar : Text.quoteChar '\'' c = [c] := by
    rw [Text.quoteChar, if_neg (not_or.mpr ⟨hne rfl, hne rfl⟩), if_neg (hne rfl), if_neg (hne rfl),
      if_neg (hne rfl), isPrintable_of_isAlpha h]
    rfl
  rw [Text.quote, String.toList_ofList, String.toList_singleton, Text.quoteChars, hfor,
    List.flatMap_singleton, hchar]
  rfl

theorem text_quote_letter {c : Char} (h : c.isAlpha = true) :
    r.text (Text.quote (String.singleton c)) = Text.quote (String.singleton (r.char c)) := by
  have hquote : r.char '\'' = '\'' := r.char_of_not_isAlpha rfl
  rw [← String.toList_inj, r.toList_text, quote_letter h, quote_letter ((r.isAlpha_char c).trans h),
    List.map_cons, List.map_cons, List.map_singleton, hquote]

/-- Where the requirements mirror each other, so do the reports. -/
theorem ofBlame_mirrored {q q' : Requirement} (h : SameRequirement r q q') (text : String)
    (p : Nat) :
    ParseError.ofBlame (r.text text) ⟨p, [q']⟩ = (ParseError.ofBlame text ⟨p, [q]⟩).rename r := by
  cases h with
  | fixed expected hrule =>
    rw [ofBlame_token, ofBlame_token, getElem?_text, ParseError.rename, if_neg hrule]
  | letter halpha =>
    rw [ofBlame_token, ofBlame_token, getElem?_text, ParseError.rename, if_pos rfl]
    simp only [CharClass.description, text_quote_letter halpha]

theorem ofTooDeep_rename (r : Renaming) (text : String) :
    ParseError.ofTooDeep (r.text text) = (ParseError.ofTooDeep text).rename r := by
  have hfound := getElem?_text r text 0
  have hplace : ∀ s : String, ParseError.foundAt s 0 = s.toList[0]?.map String.singleton :=
    fun s ↦ ParseError.foundAt_natCast s 0
  rw [ParseError.ofTooDeep, ParseError.ofTooDeep, ParseError.rename, hplace, hplace, hfound,
    if_neg (show "expression" ≠ "variable" by decide)]

/-! ## Texts -/

theorem stripBlanks_text (r : Renaming) (text : String) :
    Text.stripBlanks (r.text text) = r.text (Text.stripBlanks text) := by
  have hblank : ∀ c : Char, Text.isBlank (r.char c) = Text.isBlank c := by
    intro c
    by_cases h : c.isAlpha = true
    · rw [not_isBlank_of_inAlphabet (inAlphabet_of_isAlpha h),
        not_isBlank_of_inAlphabet (inAlphabet_of_isAlpha ((r.isAlpha_char c).trans h))]
    · rw [r.char_of_not_isAlpha (Bool.eq_false_iff.mpr h)]
  have hkept : (fun c ↦ !Text.isBlank c) ∘ r.char = fun c ↦ !Text.isBlank c :=
    funext fun c ↦ congrArg (!·) (hblank c)
  rw [← String.toList_inj, Text.toList_stripBlanks, r.toList_text, r.toList_text,
    Text.toList_stripBlanks, List.filter_map, hkept]

/-- Renaming moves neither groups nor exponents. -/
theorem nestingBound_map (r : Renaming) (cs : List Char) :
    nestingBound (cs.map r.char) = nestingBound cs := by
  have hcount : ∀ sign : Char, sign.isAlpha = false → (cs.map r.char).count sign = cs.count sign := by
    intro sign hsign
    rw [List.count_eq_countP, List.count_eq_countP, List.countP_map]
    refine List.countP_congr fun c _ ↦ ?_
    rw [Function.comp_apply, beq_iff_eq, beq_iff_eq, r.char_eq_iff hsign]
  rw [nestingBound, nestingBound, hcount '(' rfl, hcount '^' rfl]

/-- Under any nesting limit the renamed text is read as the renamed expression, or rejected with the
renamed report. -/
theorem parseWithin_text (r : Renaming) (limit : Nat) (text : String) :
    Expression.parseWithin limit (r.text text)
      = ((Expression.parseWithin limit text).map (Expression.rename r)).mapError
          (ParseError.rename r) := by
  have hmirrored := mirrors_whole r limit SameName.none 0 (Text.stripBlanks text).toList
  rw [Expression.parseWithin, Expression.parseWithin, parseWithin, parseWithin, stripBlanks_text,
    r.toList_text]
  generalize hrun : whole limit none ⟨0, (Text.stripBlanks text).toList⟩ = answer at hmirrored
  generalize hrun' : whole limit none ⟨0, (Text.stripBlanks text).toList.map r.char⟩ = answer'
    at hmirrored
  have hseek : ∀ cs : List Char, Cursor.seek cs 0 = ⟨0, cs⟩ := fun _ ↦ rfl
  rw [hseek, hseek, hrun, hrun']
  cases hmirrored with
  | done root i rest hname =>
    cases hname with
    | none => rfl
    | letter h =>
      simp only [Except.map, Except.mapError, Expression.rename, Option.map_some, r.text_singleton]
  | failed i hq hname => exact congrArg Except.error (ofBlame_mirrored hq _ i)
  | tooDeep hname => exact congrArg Except.error (ofTooDeep_rename r _)

theorem parse_text (r : Renaming) (text : String) :
    Expression.parse (r.text text)
      = ((Expression.parse text).map (Expression.rename r)).mapError (ParseError.rename r) := by
  rw [Expression.parse, Expression.parse, stripBlanks_text, r.toList_text, nestingBound_map,
    parseWithin_text]

/-! ## Canonical texts -/

/-- Only the name of the variable is written with letters. -/
theorem Shaped.chars_map {s : Symbol} {t : s.Value} (h : Shaped s t) (name : List Char) :
    s.chars (name.map r.char) t = (s.chars name t).map r.char := by
  have hsign : ∀ {c : Char}, c.isAlpha = false → r.char c = c := r.char_of_not_isAlpha
  induction h with
  | sum h h' ih ih' => exact (congrArg₂ (· ++ ·) ih ih').trans List.map_append.symm
  | noAddend => rfl
  | addend op h h' ih ih' =>
    have hrest := (congrArg₂ (· ++ ·) ih ih').trans List.map_append.symm
    exact congrArg₂ List.cons (hsign op.isAlpha_sign).symm hrest
  | term h h' ih ih' => exact (congrArg₂ (· ++ ·) ih ih').trans List.map_append.symm
  | noFactor => rfl
  | multiplicand op h h' ih ih' =>
    have hrest := (congrArg₂ (· ++ ·) ih ih').trans List.map_append.symm
    exact congrArg₂ List.cons (hsign op.isAlpha_sign).symm hrest
  | factor negate h ih =>
    cases negate with
    | false => exact ih
    | true => exact congrArg₂ List.cons (hsign (c := '-') rfl).symm ih
  | plain h ih => exact ih
  | @raised base exponent h h' ih ih' =>
    have hrest : '^' :: Node.chars (name.map r.char) exponent
        = ('^' :: Node.chars name exponent).map r.char :=
      congrArg₂ List.cons (hsign (c := '^') rfl).symm ih'
    exact (congrArg₂ (· ++ ·) ih hrest).trans List.map_append.symm
  | var => rfl
  | @number v h =>
    obtain ⟨whole, fraction, hwhole, hfraction, htext, -⟩ := isNumeral_numberChars h
    have proper : (Derivation.number whole fraction).Proper := ⟨hwhole, hfraction⟩
    have hletters : NoLetters (Node.numberChars v) := by
      rw [htext]
      exact Derivation.noLetters_number proper
    exact (r.map_char_of_noLetters hletters).symm
  | @group inner h ih =>
    have hgroup : ∀ cs : List Char, Node.asBase inner cs = '(' :: cs ++ [')'] := fun cs ↦ by
      rw [Node.asBase, if_pos h.isSum]
    have ih : Node.chars (name.map r.char) inner = (Node.chars name inner).map r.char := ih
    simp only [Symbol.chars, hgroup, ih, List.map_append, List.map_cons, List.map_nil,
      hsign (c := '(') rfl, hsign (c := ')') rfl]

theorem canonical_char {t : Node} (h : Shaped .sum t) (v : Char) :
    t.canonical (some (String.singleton (r.char v)))
      = r.text (t.canonical (some (String.singleton v))) := by
  rw [← String.toList_inj, r.toList_text, canonical_singleton, canonical_singleton,
    String.toList_ofList, String.toList_ofList]
  exact h.chars_map [v]

theorem noLetters_canonical {t : Node} {v : Char} (hv : v.isAlpha = true) (h : Shaped .sum t)
    (hvar : t.hasVar = false) : NoLetters (t.canonical (some (String.singleton v))).toList := by
  obtain ⟨d, proper, htree, htext, -⟩ := h.exists_derivation hv
  have htext : d.text = t.chars [v] := htext
  have hletters : d.text.any Char.isAlpha = false :=
    (d.any_isAlpha_text proper).trans ((congrArg Node.hasVar htree).trans hvar)
  rw [canonical_singleton, String.toList_ofList, ← htext]
  exact fun c hc ↦ Bool.eq_false_iff.mpr (List.any_eq_false.mp hletters c hc)

/-- The canonical text of the renamed expression is the renamed canonical text. -/
theorem canonical_rename (r : Renaming) {text : String} {e : Expression}
    (h : Expression.parse text = .ok e) : (e.rename r).canonical = r.text e.canonical := by
  obtain ⟨hshaped, v, hv, hcanonical, hinput⟩ := shaped_of_parse h
  rw [hcanonical, Expression.canonical, Expression.rename, hinput]
  cases hvar : e.root.hasVar with
  | true =>
    rw [if_pos rfl, Option.map_some, r.text_singleton]
    exact canonical_char hshaped v
  | false =>
    -- A constant is written in the same way whatever its variable would be called.
    have hsame : e.root.canonical none = e.root.canonical (some (String.singleton v)) := by
      rw [← hcanonical, Expression.canonical, hinput, hvar]
      rfl
    rw [if_neg Bool.false_ne_true, Option.map_none, hsame, ← String.toList_inj, r.toList_text]
    exact (r.map_char_of_noLetters (noLetters_canonical hv hshaped hvar)).symm

/-- **Renaming letters commutes with parsing.** The renamed text is accepted exactly if the text is,
as the same tree in the renamed variable and from the renamed source; so the values at every point,
at every list of points and on every grid are the same, and the canonical text is the renamed one.
If the text is rejected, the renamed one is so in the same rule and at the same position, and what
is found there and the letter that was expected are the renamed ones. -/
theorem parse_rename (r : Renaming) (text : String) :
    (∀ e, Expression.parse text = .ok e →
      ∃ e', Expression.parse (r.text text) = .ok e' ∧ e'.root = e.root ∧
        e'.input = e.input.map r.text ∧ e'.source = r.text e.source ∧
        (∀ x : Float, e'.eval x = e.eval x) ∧ (∀ xs : List Float, e'.evalList xs = e.evalList xs) ∧
        e'.canonical = r.text e.canonical) ∧
    ∀ e, Expression.parse text = .error e →
      ∃ e', Expression.parse (r.text text) = .error e' ∧ e'.rule = e.rule ∧
        e'.position = e.position ∧ e'.found = e.found.map r.text ∧ e'.text = r.text e.text ∧
        e'.expected = if e.rule = "variable" then r.text e.expected else e.expected := by
  refine ⟨fun e h ↦ ?_, fun e h ↦ ?_⟩
  · refine ⟨e.rename r, ?_, rfl, rfl, rfl, fun _ ↦ rfl, fun _ ↦ rfl, canonical_rename r h⟩
    rw [parse_text, h]
    rfl
  · refine ⟨e.rename r, ?_, rfl, rfl, rfl, rfl, rfl⟩
    rw [parse_text, h]
    rfl

/-- Two letters change places: in an accepted text, and in a text with a second letter, where the
first one was expected. -/
theorem parse_rename_of_swap :
    (∃ e', Expression.parse "yy" = .ok e' ∧ e'.input = some "y" ∧
      e'.canonical.toList = "y*y".toList) ∧
      ∃ e', Expression.parse "y + z" = .error e' ∧ e'.position = 2 ∧ e'.found = some "z" ∧
        e'.expected = Text.quote "y" := by
  let r : Renaming := Equiv.swap ⟨'x', rfl⟩ ⟨'y', rfl⟩
  let operand : Node := .signed false (.power .var none)
  have haccepted : Expression.parse "xx"
      = .ok ⟨.sum (.product operand [(.times, operand)]) [], some "x", Text.stripBlanks "xx"⟩ :=
    parse_of_parseTree rfl
  have hrejected : Expression.parse "x + z"
      = .error (.ofBlame "x+z" ⟨2, [.token (CharClass.literal "x").description "variable"]⟩) :=
    parse_of_parseTree_error (show parseTree none _ = (_, some "x") from rfl)
  rw [ofBlame_token] at hrejected
  obtain ⟨e', he', -, hinput, -, -, -, hcanonical⟩ := (parse_rename r "xx").1 _ haccepted
  obtain ⟨e'', he'', -, hposition, hfound, -, hexpected⟩ := (parse_rename r "x + z").2 _ hrejected
  rw [show r.text "xx" = "yy" by decide] at he'
  rw [show r.text "x + z" = "y + z" by decide] at he''
  rw [if_pos rfl] at hexpected
  refine ⟨⟨e', he', hinput.trans ?_, ?_⟩, e'', he'', hposition, hfound.trans ?_, ?_⟩
  · decide
  · rw [hcanonical]
    decide
  · decide
  · have hquote : r.text (Text.quote "x") = Text.quote (String.singleton (r.char 'x')) :=
      text_quote_letter (c := 'x') rfl
    exact hexpected.trans (hquote.trans (congrArg Text.quote (by decide)))

end Grammar

end ExprSampler
