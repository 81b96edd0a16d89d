import ExprSampler.Proofs.Binary64.Unsigned
import ExprSampler.Proofs.Decimal.Reading
import ExprSampler.Proofs.Grammar.Derivation

/-!
# Written numbers

The positional form of a decimal is a number of the grammar, and it is read as the double nearest to
the decimal: a layout only moves zeros between the digits and the exponent. So every double without
a sign is written as a number that is read as the same double, infinity as digits that are past
every finite double.
-/

namespace ExprSampler

/-! ## Digits -/

theorem natOfDigits_append (cs cs' : List Char) :
    natOfDigits (cs ++ cs') = natOfDigits cs * 10 ^ cs'.length + natOfDigits cs' := by
  change Nat.ofDigitChars 10 (cs ++ cs') 0
    = Nat.ofDigitChars 10 cs 0 * 10 ^ cs'.length + Nat.ofDigitChars 10 cs' 0
  rw [Nat.ofDigitChars_append, Nat.ofDigitChars_eq_ofDigitChars_zero, Nat.mul_comm]

theorem natOfDigits_zeros (k : Nat) : natOfDigits (List.replicate k '0') = 0 :=
  Nat.ofDigitChars_replicate_zero.trans (Nat.mul_zero _)

theorem natOfDigits_append_zeros (cs : List Char) (k : Nat) :
    natOfDigits (cs ++ List.replicate k '0') = natOfDigits cs * 10 ^ k := by
  rw [natOfDigits_append, natOfDigits_zeros, List.length_replicate, Nat.add_zero]

theorem natOfDigits_zeros_append (k : Nat) (cs : List Char) :
    natOfDigits (List.replicate k '0' ++ cs) = natOfDigits cs := by
  rw [natOfDigits_append, natOfDigits_zeros, Nat.zero_mul, Nat.zero_add]

theorem natOfDigits_digitsOf (n : Nat) : natOfDigits (digitsOf n) = n :=
  Nat.ofDigitChars_ten_toDigits

namespace Grammar

open ExprSampler.Grammar.Derivation Decimal NumberStyle

theorem isDigits_digitsOf (n : Nat) : IsDigits (digitsOf n) :=
  ⟨Nat.toDigits_ne_nil, fun _ ↦ Nat.isDigit_of_mem_toDigits (by decide) (by decide)⟩

theorem isDigit_of_mem_zeros {k : Nat} {c : Char} (h : c ∈ List.replicate k '0') :
    c.isDigit = true := by
  rw [List.eq_of_mem_replicate h]
  rfl

theorem Derivation.IsDigits.append_zeros {cs : List Char} (h : IsDigits cs) (k : Nat) :
    IsDigits (cs ++ List.replicate k '0') :=
  ⟨fun hnil ↦ h.1 (List.append_eq_nil_iff.mp hnil).1,
    fun c hc ↦ (List.mem_append.mp hc).elim (h.2 c) isDigit_of_mem_zeros⟩

theorem Derivation.IsDigits.zeros_append {cs : List Char} (h : IsDigits cs) (k : Nat) :
    IsDigits (List.replicate k '0' ++ cs) :=
  ⟨fun hnil ↦ h.1 (List.append_eq_nil_iff.mp hnil).2,
    fun c hc ↦ (List.mem_append.mp hc).elim isDigit_of_mem_zeros (h.2 c)⟩

/-! ## Significant digits -/

/-- What the significant digits leave out is zeros. -/
theorem exists_digitsOf_eq {d : Decimal} (h : d.digits ≠ 0) :
    ∃ zeros, digitsOf d.digits = d.significant ++ List.replicate zeros '0' := by
  have hsplit : d.significant ++ (digitsOf d.digits).rtakeWhile (· == '0') = digitsOf d.digits := by
    rw [significant, if_neg h]
    exact List.rdropWhile_append_rtakeWhile
  refine ⟨((digitsOf d.digits).rtakeWhile (· == '0')).length, hsplit.symm.trans ?_⟩
  have hzeros : ∀ c ∈ (digitsOf d.digits).rtakeWhile (· == '0'), c = '0' := fun c hc ↦ by
    simpa using List.mem_rtakeWhile_imp hc
  rw [← List.eq_replicate_iff.mpr ⟨rfl, hzeros⟩]

theorem isDigits_significant {d : Decimal} (h : d.digits ≠ 0) : IsDigits d.significant := by
  obtain ⟨zeros, hdigits⟩ := exists_digitsOf_eq h
  refine ⟨fun hnil ↦ h ?_, fun c hc ↦ (isDigits_digitsOf d.digits).2 c ?_⟩
  · rw [← natOfDigits_digitsOf d.digits, hdigits, hnil, List.nil_append, natOfDigits_zeros]
  · rw [hdigits]
    exact List.mem_append_left _ hc

/-- Leaving out the zeros at the end of its digits does not change how a decimal is read. -/
theorem toNumber_significant {d : Decimal} (h : d.digits ≠ 0) :
    toNumber ⟨natOfDigits d.significant, d.magnitude + 1 - d.significant.length⟩ = d.toNumber := by
  obtain ⟨zeros, hdigits⟩ := exists_digitsOf_eq h
  have hvalue : d.digits = natOfDigits d.significant * 10 ^ zeros := by
    rw [← natOfDigits_append_zeros, ← hdigits, natOfDigits_digitsOf]
  have hexponent : d.magnitude + 1 - d.significant.length = d.exponent + zeros := by
    have hcount : digitCount d.digits = d.significant.length + zeros := by
      rw [digitCount, hdigits, List.length_append, List.length_replicate]
    rw [magnitude, hcount]
    omega
  rw [hexponent, ← toNumber_shift, ← hvalue]

/-! ## Layouts -/

/-- The text is a number of the grammar and is read as the double with the given number. -/
def IsNumeral (cs : List Char) (number : Nat) : Prop :=
  ∃ (whole : List Char) (fraction : Option (List Char)),
    IsDigits whole ∧ (∀ digits ∈ fraction, IsDigits digits) ∧
      cs = whole ++ fractionChars fraction ∧ (ofPlaces whole (fraction.getD [])).toNumber = number

theorem isNumeral_whole {whole : List Char} {number : Nat} (h : IsDigits whole)
    (hnumber : toNumber ⟨natOfDigits whole, 0⟩ = number) : IsNumeral whole number := by
  refine ⟨whole, none, h, nofun, (List.append_nil whole).symm, ?_⟩
  rw [← hnumber, Option.getD_none, ofPlaces, List.append_nil]
  rfl

theorem isNumeral_places {whole digits : List Char} {number : Nat} (h : IsDigits whole)
    (h' : IsDigits digits)
    (hnumber : toNumber ⟨natOfDigits (whole ++ digits), -digits.length⟩ = number) :
    IsNumeral (whole ++ '.' :: digits) number := by
  refine ⟨whole, some digits, h, fun _ hd ↦ ?_, rfl, hnumber⟩
  rwa [← Option.some.inj hd]

/-- Digits are laid out as a number of their value, wherever the point is put. -/
theorem isNumeral_layPositional {ds : List Char} (h : IsDigits ds) (e : Int) :
    IsNumeral (positionalForm.layPositional ds e)
      (toNumber ⟨natOfDigits ds, e + 1 - ds.length⟩) := by
  -- The point stands before all digits, behind them, or between two of them.
  by_cases hneg : e < 0
  · have hlength : -((List.replicate (-e - 1).toNat '0' ++ ds).length : Int)
        = e + 1 - ds.length := by
      rw [List.length_append, List.length_replicate]
      omega
    have hvalue : natOfDigits (['0'] ++ (List.replicate (-e - 1).toNat '0' ++ ds))
        = natOfDigits ds := by
      rw [← List.append_assoc]
      exact natOfDigits_zeros_append ((-e - 1).toNat + 1) ds
    rw [layPositional, if_pos hneg]
    refine isNumeral_places (isDigits_digitsOf 0) (h.zeros_append _) ?_
    exact (congrArg₂ (toNumber ⟨·, ·⟩) hvalue hlength)
  have hrun : positionalForm.layPositional ds e
      = if ds.length ≤ e.toNat + 1 then ds ++ List.replicate (e.toNat + 1 - ds.length) '0' ++ []
        else ds.take (e.toNat + 1) ++ '.' :: ds.drop (e.toNat + 1) :=
    if_neg hneg
  by_cases hwhole : ds.length ≤ e.toNat + 1
  · have hexponent : (0 : Int) + (e.toNat + 1 - ds.length : Nat) = e + 1 - ds.length := by omega
    rw [hrun, if_pos hwhole, List.append_nil]
    refine isNumeral_whole (h.append_zeros _) ?_
    rw [natOfDigits_append_zeros, toNumber_shift, hexponent]
  · have hlength : -((ds.drop (e.toNat + 1)).length : Int) = e + 1 - ds.length := by
      rw [List.length_drop]
      omega
    rw [hrun, if_neg hwhole]
    refine isNumeral_places ⟨fun hnil ↦ ?_, fun c hc ↦ h.2 c (List.mem_of_mem_take hc)⟩
      ⟨fun hnil ↦ ?_, fun c hc ↦ h.2 c (List.mem_of_mem_drop hc)⟩ ?_
    · exact (List.take_eq_nil_iff.mp hnil).elim (by omega) h.1
    · exact hwhole (List.drop_eq_nil_iff.mp hnil)
    · rw [hlength, List.take_append_drop]

/-- The positional form of a decimal is read as the double nearest to it. -/
theorem isNumeral_lay (d : Decimal) : IsNumeral (positionalForm.lay d) d.toNumber := by
  by_cases hzero : d.digits = 0
  · rw [lay, if_pos hzero]
    refine isNumeral_whole (isDigits_digitsOf 0) ?_
    rw [toNumber, if_pos (.inl rfl), toNumber, if_pos (.inl hzero)]
  · rw [lay, if_neg hzero]
    change IsNumeral (positionalForm.layPositional d.significant d.magnitude) _
    rw [← toNumber_significant hzero]
    exact isNumeral_layPositional (isDigits_significant hzero) d.magnitude

theorem isNumeral_overflowDigits : IsNumeral Node.overflowDigits Binary64.infinity := by
  refine isNumeral_whole ((isDigits_digitsOf 1).append_zeros 309) ?_
  decide +kernel

/-! ## Doubles -/

/-- A double without a sign is written as a number that is read as the same double. -/
theorem isNumeral_numberChars {v : Float} (h : Binary64.Unsigned v) :
    IsNumeral (Node.numberChars v) (Binary64.number v) := by
  rw [Node.numberChars]
  by_cases hinf : v.isInf = true
  · rw [if_pos hinf, (Binary64.isInf_iff h).mp hinf]
    exact isNumeral_overflowDigits
  · have hlt : Binary64.number v < Binary64.infinity :=
      Nat.lt_of_le_of_ne (Binary64.number_le_infinity h) fun heq ↦
        hinf ((Binary64.isInf_iff h).mpr heq)
    have htext : Binary64.positionalText v
        = positionalForm.lay (Binary64.shortest (Binary64.number v)) := by
      rw [Binary64.positionalText, Binary64.write, Binary64.isNaN_eq_false h,
        Bool.eq_false_iff.mpr hinf, Binary64.writeFinite, Binary64.isNegative_eq_false h]
      rfl
    rw [if_neg hinf, htext]
    have hlay := isNumeral_lay (Binary64.shortest (Binary64.number v))
    rwa [Binary64.toNumber_shortest hlt] at hlay

end Grammar

end ExprSampler
