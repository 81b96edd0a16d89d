import ExprSampler.Proofs.Binary64.Patterns

/-!
# Where the two rules for powers part

An exponent known to be a single value is treated by a rule of its own, in which five exponents
stand for the operation they abbreviate. The two rules agree wherever a limit decides about the
power, but for the square root of a negative zero or infinity; and at other bases they agree exactly
where the power that the machine computes is the abbreviated operation.
-/

namespace ExprSampler

namespace Binary64

/-- The exponents that abbreviate an operation which depends on the base. -/
def Abbreviates (e : Float) : Prop :=
  e = -1.0 ∨ e = 0.5 ∨ e = 1.0 ∨ e = 2.0

instance (e : Float) : Decidable (Abbreviates e) :=
  inferInstanceAs (Decidable (_ ∨ _))

/-- The two rules give different powers: of the square roots, those of the negative zero and
infinity; at bases that no limit decides about, those that the machine computes otherwise. -/
def RulesPart (b e : Float) : Prop :=
  (e = 0.5 ∧ (b = -0.0 ∨ b = -positiveInfinity)) ∨
    (Abbreviates e ∧ b.isFinite = true ∧ (b == 0.0) = false ∧ (b == 1.0) = false ∧
      Float.pow b e ≠ powerBySingle b e)

instance (b e : Float) : Decidable (RulesPart b e) :=
  inferInstanceAs (Decidable (_ ∨ _))

/-! ## Bases and exponents -/

theorem abbreviates_of_beq {e : Float}
    (h : (e == -1.0) = true ∨ (e == 0.5) = true ∨ (e == 1.0) = true ∨ (e == 2.0) = true) :
    Abbreviates e := by
  rcases h with h | h | h | h
  · exact .inl (eq_of_beq_finite rfl h)
  · exact .inr (.inl (eq_of_beq_finite rfl h))
  · exact .inr (.inr (.inl (eq_of_beq_finite rfl h)))
  · exact .inr (.inr (.inr (eq_of_beq_finite rfl h)))

/-- A limit decides about a power of the base, or the base is finite and neither zero nor one. -/
theorem base_cases (b : Float) :
    b ∈ [notANumber, positiveInfinity, -positiveInfinity, 0.0, -0.0, 1.0] ∨
      b.isNaN = false ∧ b.isInf = false ∧ (b == 0.0) = false ∧ (b == 1.0) = false := by
  by_cases hnan : b.isNaN = true
  · exact .inl (by simp [eq_notANumber hnan])
  by_cases hinf : b.isInf = true
  · rcases eq_infinity hinf with rfl | rfl <;> exact .inl (by simp)
  by_cases hzero : (b == 0.0) = true
  · rcases eq_zero hzero with rfl | rfl <;> exact .inl (by simp)
  by_cases hone : (b == 1.0) = true
  · exact .inl (by simp [eq_of_beq_finite rfl hone])
  · exact .inr ⟨Bool.eq_false_iff.mpr hnan, Bool.eq_false_iff.mpr hinf,
      Bool.eq_false_iff.mpr hzero, Bool.eq_false_iff.mpr hone⟩

theorem isFinite_of_not {b : Float} (hnan : b.isNaN = false) (hinf : b.isInf = false) :
    b.isFinite = true := by
  have hnan : b.toModel.unpack.isNaN = false := hnan
  have hinf : b.toModel.unpack.isInf = false := hinf
  change b.toModel.unpack.isFinite = true
  rcases hb : b.toModel.unpack with s | _ | s | ⟨s, m, e, hm⟩ <;> rw [hb] at hnan hinf
  · cases hinf
  · cases hnan
  · rfl
  · rfl

/-- What is left to the machine. -/
theorem power_eq_pow {b e : Float} (hnan : b.isNaN = false) (hinf : b.isInf = false)
    (hzero : (b == 0.0) = false) (hone : (b == 1.0) = false) (he : Abbreviates e) :
    power b e = Float.pow b e := by
  have hlimit : (e == 0.0) = false ∧ e.isNaN = false ∧ e.isInf = false := by
    rcases he with rfl | rfl | rfl | rfl <;> decide
  obtain ⟨hezero, henan, heinf⟩ := hlimit
  simp only [power, hezero, hone, hnan, henan, heinf, hzero, hinf, Bool.or_self,
    Bool.false_eq_true, if_false]

theorem power_eq_of_not_abbreviates {b e : Float} (h : ¬Abbreviates e) :
    power b e = powerBySingle b e := by
  have hbeq : ¬((e == -1.0) = true ∨ (e == 0.5) = true ∨ (e == 1.0) = true ∨ (e == 2.0) = true) :=
    fun h' ↦ h (abbreviates_of_beq h')
  simp only [not_or, Bool.not_eq_true] at hbeq
  obtain ⟨hneg, hhalf, hone, htwo⟩ := hbeq
  by_cases hzero : (e == 0.0) = true
  · simp [powerBySingle, power, hneg, hzero]
  · simp [powerBySingle, hneg, hhalf, hone, htwo, hzero]

/-- **The two rules part exactly there.** -/
theorem power_eq_powerBySingle_iff (b e : Float) :
    power b e = powerBySingle b e ↔ ¬RulesPart b e := by
  by_cases he : Abbreviates e
  · rcases base_cases b with hb | ⟨hnan, hinf, hzero, hone⟩
    · -- Six bases and four exponents are left; both powers are computed for each pair.
      have hall : ∀ b ∈ [notANumber, positiveInfinity, -positiveInfinity, 0.0, -0.0, 1.0],
          ∀ e ∈ [(-1.0 : Float), 0.5, 1.0, 2.0],
            power b e = powerBySingle b e ↔ ¬RulesPart b e := by
        decide +kernel
      refine hall b hb e ?_
      simpa [Abbreviates] using he
    · have hlimit : ¬(b = -0.0 ∨ b = -positiveInfinity) := by
        rintro (rfl | rfl)
        · exact absurd hzero (by decide)
        · exact absurd hinf (by decide)
      simp [power_eq_pow hnan hinf hzero hone he, RulesPart, he, hlimit,
        isFinite_of_not hnan hinf, hzero, hone]
  · have hhalf : e ≠ 0.5 := fun h ↦ he (.inr (.inl h))
    simp [power_eq_of_not_abbreviates he, RulesPart, he, hhalf]

end Binary64

end ExprSampler
