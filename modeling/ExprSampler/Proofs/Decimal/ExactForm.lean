import ExprSampler.Proofs.Binary64.Signs
import ExprSampler.Proofs.Grammar.Numerals

/-!
# The exact form of doubles

The exact form has a fraction or an exponent, and its digits before the point do not start with a
superfluous zero. The first is what tells a double from an integer where both are numbers, the
second is what JSON asks of any number; so the exact form serves wherever numbers are read. Its
decimal is a way to write the shortest one of the double, so it is nearest to that double.
-/

namespace ExprSampler

open Grammar Derivation Decimal NumberStyle

/-! ## First digits -/

theorem natOfDigits_zero_cons (cs : List Char) : natOfDigits ('0' :: cs) = natOfDigits cs :=
  natOfDigits_zeros_append 1 cs

theorem natOfDigits_lt {ds : List Char} (h : ∀ c ∈ ds, c.isDigit = true) :
    natOfDigits ds < 10 ^ ds.length := by
  induction ds with
  | nil => decide
  | cons c ds ih =>
    have hc := toNat_of_isDigit (h c List.mem_cons_self)
    have ih := ih fun c' hc' ↦ h c' (List.mem_cons_of_mem c hc')
    have hfirst : natOfDigits [c] = c.toNat - 48 := by
      change 10 * 0 + (c.toNat - 48) = c.toNat - 48
      omega
    rw [← List.singleton_append, natOfDigits_append, hfirst, List.length_append,
      List.length_singleton, Nat.pow_add]
    calc (c.toNat - 48) * 10 ^ ds.length + natOfDigits ds
        < (c.toNat - 48) * 10 ^ ds.length + 10 ^ ds.length := Nat.add_lt_add_left ih _
      _ = (c.toNat - 48 + 1) * 10 ^ ds.length := (Nat.succ_mul _ _).symm
      _ ≤ 10 ^ 1 * 10 ^ ds.length := Nat.mul_le_mul_right _ (by omega)

theorem head?_digitsOf {n : Nat} (h : n ≠ 0) : (digitsOf n).head? ≠ some '0' := by
  intro hhead
  obtain ⟨rest, hrest⟩ := List.head?_eq_some_iff.mp hhead
  have hdigits : ∀ c ∈ rest, c.isDigit = true := fun c hc ↦
    (isDigits_digitsOf n).2 c (hrest ▸ List.mem_cons_of_mem _ hc)
  have hvalue : n = natOfDigits rest := by
    rw [← natOfDigits_zero_cons, ← hrest, natOfDigits_digitsOf]
  have hlow := pow_digitCount_le h
  rw [digitCount, hrest, List.length_cons, Nat.add_sub_cancel] at hlow
  exact absurd (hvalue ▸ natOfDigits_lt hdigits) (Nat.not_lt.mpr hlow)

theorem head?_append_of_isDigits {ds : List Char} (h : IsDigits ds) (cs : List Char) :
    (ds ++ cs).head? = ds.head? := by
  obtain ⟨c, rest, rfl⟩ := List.exists_cons_of_ne_nil h.1
  rfl

theorem head?_significant {d : Decimal} (h : d.digits ≠ 0) : d.significant.head? ≠ some '0' := by
  obtain ⟨zeros, hdigits⟩ := exists_digitsOf_eq h
  have hhead := head?_digitsOf h
  rwa [hdigits, head?_append_of_isDigits (isDigits_significant h)] at hhead

/-! ## Exponents -/

/-- The exponent as it is written, if there is one. -/
def exponentChars : Option Int → List Char
  | none => []
  | some e => layExponent e

theorem exists_layExponent (e : Int) :
    ∃ ds, IsDigits ds ∧ natOfDigits ds = e.natAbs ∧
      layExponent e = 'e' :: (if e < 0 then '-' else '+') :: ds :=
  ⟨List.replicate (2 - (digitsOf e.natAbs).length) '0' ++ digitsOf e.natAbs,
    (isDigits_digitsOf e.natAbs).zeros_append _,
    (natOfDigits_zeros_append _ _).trans (natOfDigits_digitsOf _), rfl⟩

/-! ## Numbers with a fraction or an exponent -/

/-- The text is a number with a fraction or an exponent and without a superfluous zero, and is read
as the double with the given number. -/
inductive IsExact : List Char → Nat → Prop
  | intro {whole : List Char} {fraction : Option (List Char)} {exponent : Option Int} {n : Nat}
      (hwhole : IsDigits whole) (hlead : whole = ['0'] ∨ whole.head? ≠ some '0')
      (hfraction : ∀ digits ∈ fraction, IsDigits digits)
      (hmarked : (fraction.isNone && exponent.isNone) = false)
      (hnumber : toNumber ⟨natOfDigits (whole ++ fraction.getD []),
        -((fraction.getD []).length : Int) + exponent.getD 0⟩ = n) :
      IsExact (whole ++ (fractionChars fraction ++ exponentChars exponent)) n

theorem isExact_places {whole digits : List Char} {n : Nat} (h : IsDigits whole)
    (hlead : whole = ['0'] ∨ whole.head? ≠ some '0') (h' : IsDigits digits)
    (hnumber : toNumber ⟨natOfDigits (whole ++ digits), -(digits.length : Int)⟩ = n) :
    IsExact (whole ++ '.' :: digits) n := by
  have hfraction : ∀ ds ∈ some digits, IsDigits ds := fun ds hds ↦ by
    rwa [← Option.some.inj hds]
  have hnumber : toNumber ⟨natOfDigits (whole ++ digits), -(digits.length : Int) + 0⟩ = n := by
    rwa [Int.add_zero]
  have hexact : IsExact (whole ++ (fractionChars (some digits) ++ exponentChars none)) n :=
    .intro h hlead hfraction rfl hnumber
  rwa [exponentChars, List.append_nil] at hexact

/-- Digits written positionally, wherever the point is put. -/
theorem isExact_layPositional {ds : List Char} (h : IsDigits ds) (hlead : ds.head? ≠ some '0')
    (e : Int) :
    IsExact (exactForm.layPositional ds e) (toNumber ⟨natOfDigits ds, e + 1 - ds.length⟩) := by
  -- The point stands before all digits, behind them, or between two of them.
  by_cases hneg : e < 0
  · have hlength : -((List.replicate (-e - 1).toNat '0' ++ ds).length : Int)
        = e + 1 - ds.length := by
      rw [List.length_append, List.length_replicate]
      omega
    rw [layPositional, if_pos hneg]
    refine isExact_places (isDigits_digitsOf 0) (.inl rfl) (h.zeros_append _) ?_
    have hvalue := (natOfDigits_zero_cons (List.replicate (-e - 1).toNat '0' ++ ds)).trans
      (natOfDigits_zeros_append _ _)
    exact congrArg₂ (toNumber ⟨·, ·⟩) hvalue hlength
  have hrun : exactForm.layPositional ds e
      = if ds.length ≤ e.toNat + 1 then
          ds ++ List.replicate (e.toNat + 1 - ds.length) '0' ++ ['.', '0']
        else ds.take (e.toNat + 1) ++ '.' :: ds.drop (e.toNat + 1) :=
    if_neg hneg
  by_cases hwhole : ds.length ≤ e.toNat + 1
  · rw [hrun, if_pos hwhole]
    refine isExact_places (h.append_zeros _) (.inr ?_) (isDigits_digitsOf 0) ?_
    · rwa [head?_append_of_isDigits h]
    · have hzeros : natOfDigits (ds ++ List.replicate (e.toNat + 1 - ds.length) '0' ++ ['0'])
          = natOfDigits ds * 10 ^ (e.toNat + 1 - ds.length + 1) := by
        rw [List.append_assoc, ← List.replicate_succ', natOfDigits_append_zeros]
      have hexponent : -(1 : Int) + (e.toNat + 1 - ds.length + 1 : Nat) = e + 1 - ds.length := by
        omega
      exact (congrArg (toNumber ⟨·, -1⟩) hzeros).trans
        ((toNumber_shift _ _ _).trans (congrArg (toNumber ⟨natOfDigits ds, ·⟩) hexponent))
  · have hlength : -((ds.drop (e.toNat + 1)).length : Int) = e + 1 - ds.length := by
      rw [List.length_drop]
      omega
    have htake : IsDigits (ds.take (e.toNat + 1)) :=
      ⟨fun hnil ↦ (List.take_eq_nil_iff.mp hnil).elim (by omega) h.1,
        fun c hc ↦ h.2 c (List.mem_of_mem_take hc)⟩
    have hdrop : IsDigits (ds.drop (e.toNat + 1)) :=
      ⟨fun hnil ↦ hwhole (List.drop_eq_nil_iff.mp hnil),
        fun c hc ↦ h.2 c (List.mem_of_mem_drop hc)⟩
    rw [hrun, if_neg hwhole]
    refine isExact_places htake (.inr ?_) hdrop ?_
    · rwa [← head?_append_of_isDigits htake (ds.drop (e.toNat + 1)), List.take_append_drop]
    · rw [hlength, List.take_append_drop]

theorem isExact_layScientific {ds : List Char} (h : IsDigits ds) (hlead : ds.head? ≠ some '0')
    (e : Int) :
    IsExact (layScientific ds e) (toNumber ⟨natOfDigits ds, e + 1 - ds.length⟩) := by
  match ds, h, hlead with
  | [], h, _ => exact absurd rfl h.1
  | [d], h, hlead =>
    have hexponent : -(([] : List Char).length : Int) + e = e + 1 - ([d] : List Char).length := by
      simp only [List.length_nil, List.length_singleton]
      omega
    have hexact : IsExact ([d] ++ (fractionChars none ++ exponentChars (some e))) _ :=
      .intro h (.inr hlead) nofun rfl (congrArg (toNumber ⟨natOfDigits [d], ·⟩) hexponent)
    exact hexact
  | d :: d' :: more, h, hlead =>
    have hexponent : -((d' :: more).length : Int) + e = e + 1 - (d :: d' :: more).length := by
      simp only [List.length_cons]
      omega
    have hfirst : IsDigits [d] := ⟨List.cons_ne_nil _ _, fun c hc ↦
      h.2 c (List.mem_cons.mpr (.inl (List.mem_singleton.mp hc)))⟩
    have hmore : IsDigits (d' :: more) := ⟨List.cons_ne_nil _ _, fun c hc ↦
      h.2 c (List.mem_cons_of_mem d hc)⟩
    have hfraction : ∀ ds ∈ some (d' :: more), IsDigits ds := fun ds hds ↦ by
      rwa [← Option.some.inj hds]
    have hexact :
        IsExact ([d] ++ (fractionChars (some (d' :: more)) ++ exponentChars (some e))) _ :=
      .intro hfirst (.inr hlead) hfraction rfl
        (congrArg (toNumber ⟨natOfDigits (d :: d' :: more), ·⟩) hexponent)
    exact hexact

/-- The exact form of a decimal is read as the double nearest to it. -/
theorem isExact_lay (d : Decimal) : IsExact (exactForm.lay d) d.toNumber := by
  by_cases hzero : d.digits = 0
  · rw [lay, if_pos hzero]
    have hzeros : IsExact (['0'] ++ '.' :: ['0']) d.toNumber := by
      refine isExact_places (isDigits_digitsOf 0) (.inl rfl) (isDigits_digitsOf 0) ?_
      rw [toNumber, if_pos (.inl rfl), toNumber, if_pos (.inl hzero)]
    exact hzeros
  · have hdigits := isDigits_significant hzero
    have hlead := head?_significant hzero
    rw [lay, if_neg hzero, ← toNumber_significant hzero]
    split
    · exact isExact_layPositional hdigits hlead d.magnitude
    · exact isExact_layScientific hdigits hlead d.magnitude

/-- The exact form of a finite double without its sign. -/
theorem isExact_shortest {v : Float} (h : v.isFinite = true) :
    IsExact (exactForm.lay (Binary64.shortest (Binary64.number v))) (Binary64.number v) := by
  have hlay := isExact_lay (Binary64.shortest (Binary64.number v))
  rwa [Binary64.toNumber_shortest (Binary64.number_lt_infinity h)] at hlay

end ExprSampler
