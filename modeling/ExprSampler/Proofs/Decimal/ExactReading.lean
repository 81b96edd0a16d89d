import ExprSampler.Decimal.Reader
import ExprSampler.Proofs.Decimal.Characters

/-!
# Reading the exact form

The exact form of a double is read as the double, with its sign, also where it is no finite number.
-/

namespace ExprSampler

open Grammar Derivation Decimal NumberStyle

/-! ## Numbers and what follows them -/

/-- The text does not go on as a number would. -/
def EndsNumber (rest : List Char) : Prop :=
  ∀ c ∈ rest.head?, c.isDigit = false ∧ c ≠ '.' ∧ c ≠ 'e' ∧ c ≠ 'E'

theorem endsNumber_nil : EndsNumber [] := nofun

theorem endsNumber_cons {c : Char} (h : c.isDigit = false) (hpoint : c ≠ '.') (hmark : c ≠ 'e')
    (hmark' : c ≠ 'E') (rest : List Char) : EndsNumber (c :: rest) := fun c' hc' ↦ by
  rw [← Option.some.inj hc']
  exact ⟨h, hpoint, hmark, hmark'⟩

section

variable {ds rest : List Char}

theorem takeWhile_isDigit (h : ∀ c ∈ ds, c.isDigit = true)
    (hrest : ∀ c ∈ rest.head?, c.isDigit = false) : (ds ++ rest).takeWhile Char.isDigit = ds := by
  rw [List.takeWhile_append_of_pos h]
  cases rest with
  | nil => exact List.append_nil ds
  | cons c rest =>
    rw [List.takeWhile_cons_of_neg (by rw [hrest c rfl]; exact Bool.false_ne_true), List.append_nil]

theorem dropWhile_isDigit (h : ∀ c ∈ ds, c.isDigit = true)
    (hrest : ∀ c ∈ rest.head?, c.isDigit = false) : (ds ++ rest).dropWhile Char.isDigit = rest := by
  rw [List.dropWhile_append_of_pos h]
  cases rest with
  | nil => rfl
  | cons c rest =>
    exact List.dropWhile_cons_of_neg (by rw [hrest c rfl]; exact Bool.false_ne_true)

theorem isDigit_head?_exponent (h : EndsNumber rest) (exponent : Option Int) :
    ∀ c ∈ (exponentChars exponent ++ rest).head?, c.isDigit = false ∧ c ≠ '.' := by
  cases exponent with
  | none => exact fun c hc ↦ ⟨(h c hc).1, (h c hc).2.1⟩
  | some e =>
    intro c hc
    obtain rfl : 'e' = c := Option.some.inj hc
    exact ⟨rfl, by decide⟩

theorem isDigit_head?_fraction (h : EndsNumber rest) (fraction : Option (List Char))
    (exponent : Option Int) :
    ∀ c ∈ (fractionChars fraction ++ (exponentChars exponent ++ rest)).head?,
      c.isDigit = false := by
  cases fraction with
  | none => exact fun c hc ↦ (isDigit_head?_exponent h exponent c hc).1
  | some digits =>
    intro c hc
    obtain rfl : '.' = c := Option.some.inj hc
    rfl

end

theorem splitSign_layExponent (e : Int) (ds : List Char) :
    splitSign ((if e < 0 then '-' else '+') :: ds) = (decide (e < 0), ds) := by
  by_cases h : e < 0
  · rw [if_pos h, decide_eq_true h]
    rfl
  · rw [if_neg h, decide_eq_false h]
    rfl

/-- An exponent is its size behind its sign. -/
theorem eq_of_natAbs (e : Int) :
    (if decide (e < 0) = true then -(e.natAbs : Int) else (e.natAbs : Int)) = e := by
  by_cases h : e < 0
  · rw [decide_eq_true h, if_pos rfl]
    omega
  · rw [decide_eq_false h, if_neg Bool.false_ne_true]
    omega

/-! ## Decimals -/

theorem exponentOfChars?_exponentChars (exponent : Option Int) :
    exponentOfChars? (exponentChars exponent) = some (exponent.getD 0) := by
  cases exponent with
  | none => rfl
  | some e =>
    obtain ⟨ds, hds, hvalue, hexponent⟩ := exists_layExponent e
    have hall : ds.all Char.isDigit = true := List.all_eq_true.mpr hds.2
    have hempty : ds.isEmpty = false := List.isEmpty_eq_false_iff.mpr hds.1
    rw [exponentChars, hexponent, exponentOfChars?, splitSign_layExponent]
    dsimp only
    rw [hall, hempty, hvalue, eq_of_natAbs]
    rfl

theorem splitFraction_fractionChars {fraction : Option (List Char)} {rest : List Char}
    (h : ∀ digits ∈ fraction, IsDigits digits)
    (hrest : ∀ c ∈ rest.head?, c.isDigit = false ∧ c ≠ '.') :
    splitFraction (fractionChars fraction ++ rest) = (fraction.getD [], rest) := by
  cases fraction with
  | none =>
    rw [fractionChars, List.nil_append, splitFraction]
    · rfl
    · rintro cs rfl
      exact (hrest '.' rfl).2 rfl
  | some digits =>
    have hdigits := (h digits rfl).2
    rw [fractionChars, List.cons_append, splitFraction,
      takeWhile_isDigit hdigits fun c hc ↦ (hrest c hc).1,
      dropWhile_isDigit hdigits fun c hc ↦ (hrest c hc).1]
    rfl

/-- A number with a fraction or an exponent is read as the nearest double. -/
theorem toNumber_of_isExact {cs : List Char} {n : Nat} (h : IsExact cs n) :
    ∃ d, decimalOfChars? cs = some d ∧ d.toNumber = n := by
  obtain ⟨hwhole, -, hfraction, -, hnumber⟩ := h
  rename_i whole fraction exponent
  refine ⟨_, ?_, hnumber⟩
  have hstop := isDigit_head?_fraction endsNumber_nil fraction exponent
  have hstop' := isDigit_head?_exponent endsNumber_nil exponent
  rw [List.append_nil] at hstop hstop'
  have hempty : whole.isEmpty = false := List.isEmpty_eq_false_iff.mpr hwhole.1
  rw [decimalOfChars?, takeWhile_isDigit hwhole.2 hstop, dropWhile_isDigit hwhole.2 hstop,
    splitFraction_fractionChars hfraction hstop']
  dsimp only
  rw [exponentOfChars?_exponentChars, hempty]
  rfl

/-! ## Texts -/

theorem toNat_of_isNumberChar {c : Char} (h : isNumberChar c = true) :
    43 ≤ c.toNat ∧ c.toNat ≤ 110 ∧ c ≠ '_' := by
  rw [isNumberChar, Bool.or_eq_true, List.contains_iff_mem] at h
  rcases h with hdigit | hmem
  · have hrange := toNat_of_isDigit hdigit
    refine ⟨by omega, by omega, ?_⟩
    rintro rfl
    cases hdigit
  · simp only [List.mem_cons, List.not_mem_nil, or_false] at hmem
    rcases hmem with rfl | rfl | rfl | rfl | rfl | rfl | rfl | rfl <;> decide

theorem not_isMargin_of_isNumberChar {c : Char} (h : isNumberChar c = true) :
    ¬isMargin c = true := by
  have hrange := toNat_of_isNumberChar h
  rw [isMargin, Bool.or_eq_true, Bool.and_eq_true, beq_iff_eq, decide_eq_true_iff,
    decide_eq_true_iff]
  rintro (rfl | ⟨-, hhi⟩)
  · exact absurd hrange.1 (by decide)
  · have hhi : c.toNat ≤ 13 := hhi
    omega

theorem trimWith_ofList {drop : Char → Bool} {cs : List Char} (h : ∀ c ∈ cs, ¬drop c = true) :
    (Text.trimWith drop (String.ofList cs)).toList = cs := by
  have hkeep : ∀ ds : List Char, (∀ c ∈ ds, ¬drop c = true) → ds.dropWhile drop = ds :=
    fun ds hds ↦ List.dropWhile_eq_self_iff.mpr fun hl ↦ hds _ (List.getElem_mem hl)
  rw [Text.trimWith, String.toList_ofList, String.toList_ofList, hkeep cs h,
    hkeep _ fun c hc ↦ h c (List.mem_reverse.mp hc), List.reverse_reverse]

theorem joinDigits?_of_no_underscore {cs : List Char} (h : ∀ c ∈ cs, c ≠ '_') (afterDigit : Bool) :
    joinDigits? afterDigit cs = some cs := by
  induction cs generalizing afterDigit with
  | nil => rfl
  | cons c cs ih =>
    obtain ⟨hc, hcs⟩ := List.forall_mem_cons.mp h
    rw [joinDigits?, beq_false_of_ne hc, ih hcs]
    · rfl
    · exact fun _ _ hc' _ ↦ hc hc'

theorem numberChars?_ofList {cs : List Char} (h : NumberText cs) :
    numberChars? (String.ofList cs) = some cs := by
  have hascii : cs.map toAscii = cs := by
    refine (List.map_congr_left fun c hc ↦ ?_).trans (List.map_id cs)
    have hrange := toNat_of_isNumberChar (h c hc)
    rw [toAscii, if_pos (by omega)]
    rfl
  rw [numberChars?, String.toList_ofList, hascii,
    trimWith_ofList fun c hc ↦ not_isMargin_of_isNumberChar (h c hc)]
  exact joinDigits?_of_no_underscore (fun c hc ↦ (toNat_of_isNumberChar (h c hc)).2.2) false

/-! ## Doubles -/

theorem toLower_of_isDigit {c : Char} (h : c.isDigit = true) : c.toLower = c := by
  have hrange := toNat_of_isDigit h
  rw [Char.toLower, dif_neg]
  rintro ⟨hlo, -⟩
  have hlo : 65 ≤ c.toNat := hlo
  omega

theorem cons_ne_of_isDigit {c sign : Char} (h : c.isDigit = true) (hsign : sign.isDigit = false)
    (cs more : List Char) : c :: cs ≠ sign :: more := by
  intro hcs
  rw [← (List.cons.inj hcs).1, h] at hsign
  cases hsign

theorem floatWord?_of_isDigit {c : Char} (h : c.isDigit = true) (cs : List Char) :
    floatWord? (c :: cs) = none := by
  have hne : ∀ {first : Char} {more : List Char}, first.isDigit = false →
      String.ofList ((c :: cs).map Char.toLower) ≠ String.ofList (first :: more) := by
    intro first more hfirst
    rw [List.map_cons, toLower_of_isDigit h]
    exact fun hcs ↦ cons_ne_of_isDigit h hfirst _ _ (String.ofList_injective hcs)
  rw [floatWord?, if_neg (not_or.mpr ⟨hne rfl, hne rfl⟩), if_neg (hne rfl)]

/-- An exact form starts with a digit. -/
theorem IsExact.exists_digit {cs : List Char} {n : Nat} (h : IsExact cs n) :
    ∃ c rest, cs = c :: rest ∧ c.isDigit = true := by
  obtain ⟨hwhole, -, -, -, -⟩ := h
  rename_i whole fraction exponent
  obtain ⟨c, rest, rfl⟩ := List.exists_cons_of_ne_nil hwhole.1
  exact ⟨c, _, rfl, hwhole.2 c List.mem_cons_self⟩

theorem splitSign_of_isDigit {c : Char} (h : c.isDigit = true) (cs : List Char) :
    splitSign (c :: cs) = (false, c :: cs) := by
  rw [splitSign]
  · exact fun more ↦ cons_ne_of_isDigit h rfl cs more
  · exact fun more ↦ cons_ne_of_isDigit h rfl cs more

/-- A sign and the exact form of a decimal. -/
theorem floatOfChars?_of_isExact {cs : List Char} {n : Nat} (h : IsExact cs n) :
    floatOfChars? cs = some (Float.ofBits n.toUInt64) ∧
      floatOfChars? ('-' :: cs) = some (-Float.ofBits n.toUInt64) := by
  obtain ⟨d, hdecimal, hnumber⟩ := toNumber_of_isExact h
  obtain ⟨c, rest, rfl, hdigit⟩ := h.exists_digit
  have hword := floatWord?_of_isDigit hdigit rest
  have hfloat : d.toFloat = Float.ofBits n.toUInt64 := by rw [toFloat, hnumber]
  rw [floatOfChars?, floatOfChars?, splitSign_of_isDigit hdigit, splitSign]
  dsimp only
  rw [hword, hdecimal]
  exact ⟨congrArg some hfloat, congrArg (some <| -·) hfloat⟩

namespace Binary64

/-- The exact form of a finite double is that of its absolute value behind its sign. -/
theorem exactText_of_isFinite {v : Float} (h : v.isFinite = true) :
    exactText v = String.ofList (writeFinite .exactForm shortest v) := by
  rw [exactText, write, isNaN_eq_false_of_isFinite h, isInf_eq_false_of_isFinite h]
  rfl

theorem floatOfChars?_exactText {v : Float} (h : v.isFinite = true) :
    floatOfChars? (exactText v).toList = some v := by
  obtain ⟨hplain, hminus⟩ := floatOfChars?_of_isExact (isExact_shortest h)
  have hself := eq_of_isNegative (isNaN_eq_false_of_isFinite h)
  rw [exactText_of_isFinite h, String.toList_ofList, writeFinite]
  cases hsign : isNegative v with
  | true =>
    rw [hsign, if_pos rfl] at hself
    rw [if_pos rfl, hminus, hself]
  | false =>
    rw [hsign, if_neg Bool.false_ne_true] at hself
    rw [if_neg Bool.false_ne_true, hplain, hself]

/-- **The exact form of a double is read as the double.** -/
theorem readFloat?_exactText (v : Float) : readFloat? (exactText v) = some v := by
  have hchars : numberChars? (exactText v) = some (exactText v).toList := by
    conv_lhs => rw [← String.ofList_toList (s := exactText v)]
    exact numberChars?_ofList (numberText_exactText v)
  rw [readFloat?, hchars, Option.bind_eq_bind, Option.bind_some]
  -- Finite doubles are written as a sign and a decimal, the three others as words.
  cases hfinite : v.isFinite with
  | true => exact floatOfChars?_exactText hfinite
  | false => rcases eq_of_not_isFinite hfinite with rfl | rfl | rfl <;> decide

end Binary64

end ExprSampler
