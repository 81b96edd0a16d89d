import ExprSampler.Json.Decoder
import ExprSampler.Json.Printer
import ExprSampler.Proofs.Decimal.ExactReading

/-!
# Numbers in documents

Integers and doubles are told apart by a fraction or an exponent, which the exact form of a double
always has and an integer never. So a number in a document is read as one of the kind it was written
as, and as the same one.
-/

namespace ExprSampler

namespace JsonText

open Grammar Derivation

variable {rest : List Char}

/-! ## Parts of numbers -/

theorem wholePart_append {whole : List Char} (h : IsDigits whole)
    (hlead : whole = ['0'] ∨ whole.head? ≠ some '0')
    (hrest : ∀ c ∈ rest.head?, c.isDigit = false) : wholePart (whole ++ rest) = (whole, rest) := by
  rcases hlead with rfl | hlead
  · rfl
  · have hzero : ∀ cs, whole ++ rest ≠ '0' :: cs := by
      intro cs hcs
      rw [← head?_append_of_isDigits h rest, hcs] at hlead
      exact hlead rfl
    rw [wholePart]
    · rw [takeWhile_isDigit h.2 hrest, dropWhile_isDigit h.2 hrest]
    · exact hzero

theorem fractionPart_append {fraction : Option (List Char)}
    (h : ∀ digits ∈ fraction, IsDigits digits)
    (hrest : ∀ c ∈ rest.head?, c.isDigit = false ∧ c ≠ '.') :
    fractionPart (fractionChars fraction ++ rest) = (fraction, rest) := by
  cases fraction with
  | none =>
    rw [fractionChars, List.nil_append, fractionPart]
    rintro cs rfl
    exact (hrest '.' rfl).2 rfl
  | some digits =>
    have hdigits := h digits rfl
    obtain ⟨c, more, rfl⟩ := List.exists_cons_of_ne_nil hdigits.1
    rw [fractionChars, List.cons_append, fractionPart,
      takeWhile_isDigit hdigits.2 fun c hc ↦ (hrest c hc).1,
      dropWhile_isDigit hdigits.2 fun c hc ↦ (hrest c hc).1]

theorem exponentPart_append (exponent : Option Int) (hrest : EndsNumber rest) :
    exponentPart (exponentChars exponent ++ rest) = (exponent, rest) := by
  cases exponent with
  | none =>
    cases rest with
    | nil => rfl
    | cons c cs =>
      obtain ⟨-, -, hmark, hmark'⟩ := hrest c rfl
      rw [exponentChars, List.nil_append, exponentPart, beq_false_of_ne hmark,
        beq_false_of_ne hmark']
      rfl
  | some e =>
    obtain ⟨ds, hds, hvalue, hexponent⟩ := exists_layExponent e
    have hstop : ∀ c ∈ rest.head?, c.isDigit = false := fun c hc ↦ (hrest c hc).1
    rw [exponentChars, hexponent, List.cons_append, List.cons_append, exponentPart,
      splitSign_layExponent]
    dsimp only
    rw [takeWhile_isDigit hds.2 hstop, dropWhile_isDigit hds.2 hstop]
    obtain ⟨c, more, rfl⟩ := List.exists_cons_of_ne_nil hds.1
    change (some (if decide (e < 0) = true then -(natOfDigits (c :: more) : Int)
      else natOfDigits (c :: more)), rest) = _
    rw [hvalue, eq_of_natAbs]

/-! ## Doubles -/

theorem readNumber_of_isExact {cs : List Char} {n : Nat} (h : IsExact cs n) (hrest : EndsNumber rest)
    (negative : Bool) :
    readNumber negative (cs ++ rest)
      = .ok (.float (if negative then -Float.ofBits n.toUInt64 else Float.ofBits n.toUInt64),
          rest) := by
  obtain ⟨hwhole, hlead, hfraction, hmarked, hnumber⟩ := h
  rename_i whole fraction exponent
  have hempty : whole.isEmpty = false := List.isEmpty_eq_false_iff.mpr hwhole.1
  rw [List.append_assoc, List.append_assoc, readNumber,
    wholePart_append hwhole hlead (isDigit_head?_fraction hrest fraction exponent)]
  dsimp only
  rw [fractionPart_append hfraction (isDigit_head?_exponent hrest exponent)]
  dsimp only
  rw [exponentPart_append exponent hrest]
  dsimp only
  rw [hempty, hmarked, ← hnumber]
  rfl

/-! ## Integers -/

theorem lead_digitsOf (n : Nat) : digitsOf n = ['0'] ∨ (digitsOf n).head? ≠ some '0' := by
  by_cases h : n = 0
  · exact .inl (h ▸ rfl)
  · exact .inr (head?_digitsOf h)

theorem readNumber_digitsOf {n : Nat} (h : digitCount n ≤ maxIntDigits) (hrest : EndsNumber rest)
    (negative : Bool) :
    readNumber negative (digitsOf n ++ rest)
      = .ok (.int (if negative then -(n : Int) else n), rest) := by
  have hdigits := isDigits_digitsOf n
  have hempty : (digitsOf n).isEmpty = false := List.isEmpty_eq_false_iff.mpr hdigits.1
  have hfraction : fractionPart (fractionChars none ++ (exponentChars none ++ rest))
      = (none, exponentChars none ++ rest) :=
    fractionPart_append nofun (isDigit_head?_exponent hrest none)
  have hexponent := exponentPart_append none hrest
  rw [exponentChars, List.nil_append] at hfraction hexponent
  rw [fractionChars, List.nil_append] at hfraction
  rw [readNumber, wholePart_append hdigits (lead_digitsOf n) fun c hc ↦ (hrest c hc).1]
  dsimp only
  rw [hfraction]
  dsimp only
  rw [hexponent]
  dsimp only
  rw [hempty, if_neg Bool.false_ne_true]
  change (if maxIntDigits < digitCount n then _ else _) = _
  rw [if_neg (Nat.not_lt.mpr h), natOfDigits_digitsOf]

/-! ## Atoms -/

theorem after?_of_not_isPrefixOf {start : String} {cs : List Char}
    (h : start.toList.isPrefixOf cs = false) : after? start cs = none := by
  rw [after?, h]
  rfl

theorem isPrefixOf_of_isDigit {c first : Char} (hc : c.isDigit = true)
    (hfirst : first.isDigit = false) (more cs : List Char) :
    (first :: more).isPrefixOf (c :: cs) = false := by
  have hne : first ≠ c := by
    rintro rfl
    rw [hc] at hfirst
    cases hfirst
  rw [List.isPrefixOf, beq_false_of_ne hne, Bool.false_and]

theorem readAtom_of_isDigit (words : Bool) {c : Char} (hc : c.isDigit = true) (cs : List Char) :
    readAtom words (c :: cs) = readNumber false (c :: cs) := by
  have hword : ∀ (start : String) {first : Char} {more : List Char},
      start.toList = first :: more → first.isDigit = false → after? start (c :: cs) = none :=
    fun _ _ _ hstart hfirst ↦ after?_of_not_isPrefixOf (by
      rw [hstart, isPrefixOf_of_isDigit hc hfirst])
  rw [readAtom, hword "null" rfl rfl, hword "true" rfl rfl,
    hword "false" rfl rfl, hword "NaN" rfl rfl,
    hword "Infinity" rfl rfl, hword "-Infinity" rfl rfl, ite_self]
  exact cons_ne_of_isDigit hc rfl cs

theorem readAtom_minus (words : Bool) {c : Char} (hc : c.isDigit = true) (cs : List Char) :
    readAtom words ('-' :: c :: cs) = readNumber true (c :: cs) := by
  have hword : ∀ start : String, start.toList.isPrefixOf ('-' :: c :: cs) = false →
      after? start ('-' :: c :: cs) = none := fun _ ↦ after?_of_not_isPrefixOf
  -- The one word with a sign goes on with a letter.
  have hletter : 'I'.isDigit = false := rfl
  have hminus : "-Infinity".toList.isPrefixOf ('-' :: c :: cs) = false :=
    (Bool.true_and _).trans (isPrefixOf_of_isDigit hc hletter _ cs)
  rw [readAtom, hword "null" rfl, hword "true" rfl,
    hword "false" rfl, hword "NaN" rfl,
    hword "Infinity" rfl, hword _ hminus, ite_self]

/-! ## Signs -/

/-- Digits behind a sign, if there is one. -/
def signed (negative : Bool) (cs : List Char) : List Char :=
  if negative then '-' :: cs else cs

/-- What is read behind a sign is read with it. -/
theorem readAtom_signed (words : Bool) {cs : List Char} {value : Bool → JsonValue}
    (hfirst : ∃ c more, cs = c :: more ∧ c.isDigit = true)
    (hread : ∀ negative, readNumber negative (cs ++ rest) = .ok (value negative, rest))
    (negative : Bool) : readAtom words (signed negative cs ++ rest) = .ok (value negative, rest) := by
  obtain ⟨c, more, rfl, hdigit⟩ := hfirst
  cases negative with
  | true => exact (readAtom_minus words hdigit _).trans (hread true)
  | false => exact (readAtom_of_isDigit words hdigit _).trans (hread false)

theorem exists_first_signed {cs : List Char} (hfirst : ∃ c more, cs = c :: more ∧ c.isDigit = true)
    (negative : Bool) : ∃ c more, signed negative cs = c :: more ∧ (c.isDigit = true ∨ c = '-') := by
  cases negative with
  | true => exact ⟨'-', cs, rfl, .inr rfl⟩
  | false =>
    obtain ⟨c, more, hcs, hdigit⟩ := hfirst
    exact ⟨c, more, hcs, .inl hdigit⟩

/-- A finite double is written as its absolute value behind its sign. -/
theorem floatChars_eq {v : Float} (h : v.isFinite = true) :
    floatChars v = signed (Binary64.isNegative v)
      (NumberStyle.exactForm.lay (Binary64.shortest (Binary64.number v))) := by
  rw [floatChars, Binary64.isNaN_eq_false_of_isFinite h, Binary64.isInf_eq_false_of_isFinite h]
  rfl

theorem exists_first_floatChars {v : Float} (h : v.isFinite = true) :
    ∃ c more, floatChars v = c :: more ∧ (c.isDigit = true ∨ c = '-') := by
  rw [floatChars_eq h]
  exact exists_first_signed (isExact_shortest h).exists_digit _

/-- **A finite double is read as it was written.** -/
theorem readAtom_floatChars (words : Bool) {v : Float} (h : v.isFinite = true)
    (hrest : EndsNumber rest) :
    readAtom words (floatChars v ++ rest) = .ok (.float v, rest) := by
  have hexact := isExact_shortest h
  have hread := readAtom_signed words hexact.exists_digit (readNumber_of_isExact hexact hrest)
    (Binary64.isNegative v)
  rwa [← floatChars_eq h,
    Binary64.eq_of_isNegative (Binary64.isNaN_eq_false_of_isFinite h)] at hread

theorem toList_toString_int (n : Int) :
    (toString n).toList = signed (decide (n < 0)) (digitsOf n.natAbs) := by
  cases n with
  | ofNat m =>
    have hsign : ¬Int.ofNat m < 0 := Int.not_lt.mpr (Int.natCast_nonneg m)
    rw [decide_eq_false hsign]
    exact Nat.toList_repr
  | negSucc m =>
    rw [decide_eq_true (Int.negSucc_lt_zero m)]
    change ("-" ++ (m + 1).repr).toList = _
    rw [String.toList_append, Nat.toList_repr]
    rfl

theorem exists_first_digitsOf (n : Nat) : ∃ c more, digitsOf n = c :: more ∧ c.isDigit = true := by
  obtain ⟨c, more, hcs⟩ := List.exists_cons_of_ne_nil (isDigits_digitsOf n).1
  exact ⟨c, more, hcs, (isDigits_digitsOf n).2 c (hcs ▸ List.mem_cons_self)⟩

theorem exists_first_intChars (n : Int) :
    ∃ c more, (toString n).toList = c :: more ∧ (c.isDigit = true ∨ c = '-') := by
  rw [toList_toString_int]
  exact exists_first_signed (exists_first_digitsOf _) _

/-- An integer of not too many digits is read as it was written. -/
theorem readAtom_intChars (words : Bool) {n : Int} (h : digitCount n.natAbs ≤ maxIntDigits)
    (hrest : EndsNumber rest) :
    readAtom words ((toString n).toList ++ rest) = .ok (.int n, rest) := by
  have hread := readAtom_signed words (exists_first_digitsOf n.natAbs)
    (readNumber_digitsOf h hrest) (decide (n < 0))
  rwa [← toList_toString_int, eq_of_natAbs] at hread

end JsonText

end ExprSampler
