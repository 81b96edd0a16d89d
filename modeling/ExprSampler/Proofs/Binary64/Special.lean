import ExprSampler.Proofs.Binary64.Arithmetic

/-!
# Zeros and doubles that are not finite

Once a double is not finite, sums, products and quotients that begin with it are not finite either.
A zero, of either sign, makes zeros of its products with finite doubles, and added to a finite
double it leaves one that compares equal.
-/

namespace ExprSampler

namespace Binary64

open Float.Model Float.Model.UnpackedFloat

variable {v w : Float}

/-! ## Doubles that are not finite -/

theorem unpack_of_not_isFinite (h : v.isFinite = false) :
    v.toModel.unpack = .notANumber ∨ ∃ s, v.toModel.unpack = .infinity s := by
  have h : v.toModel.unpack.isFinite = false := h
  rcases hv : v.toModel.unpack with s | _ | s | _ <;> rw [hv] at h
  · exact .inr ⟨s, rfl⟩
  · exact .inl rfl
  · cases h
  · cases h

theorem isFinite_pack_of_not {x : UnpackedFloat} (h : x.isFinite = false) :
    (Float.ofModel (.pack x)).isFinite = false := by
  rcases x with s | _ | s | ⟨s, m, e, hm⟩
  · cases s <;> rfl
  · rfl
  · cases h
  · cases h

theorem isFinite_add_of_not (h : v.isFinite = false) (w : Float) : (v + w).isFinite = false := by
  refine isFinite_pack_of_not (x := UnpackedFloat.add .binary64 v.toModel.unpack
    w.toModel.unpack) ?_
  rcases unpack_of_not_isFinite h with hv | ⟨s, hv⟩
  · rw [hv]
    rfl
  · rw [hv]
    rcases w.toModel.unpack with s' | _ | s' | _
    · cases s <;> cases s' <;> rfl
    all_goals rfl

theorem isFinite_mul_of_not (h : v.isFinite = false) (w : Float) : (v * w).isFinite = false := by
  refine isFinite_pack_of_not (x := UnpackedFloat.mul .binary64 v.toModel.unpack
    w.toModel.unpack) ?_
  rcases unpack_of_not_isFinite h with hv | ⟨s, hv⟩
  · rw [hv]
    rfl
  · rw [hv]
    rcases w.toModel.unpack with s' | _ | s' | _ <;> rfl

theorem isFinite_mul_of_not_right (v : Float) (h : w.isFinite = false) :
    (v * w).isFinite = false := by
  refine isFinite_pack_of_not (x := UnpackedFloat.mul .binary64 v.toModel.unpack
    w.toModel.unpack) ?_
  rcases unpack_of_not_isFinite h with hw | ⟨s, hw⟩
  · rw [hw]
    rcases v.toModel.unpack with s' | _ | s' | _ <;> rfl
  · rw [hw]
    rcases v.toModel.unpack with s' | _ | s' | _ <;> rfl

theorem isFinite_div_of_not (h : v.isFinite = false) (w : Float) : (v / w).isFinite = false := by
  refine isFinite_pack_of_not (x := UnpackedFloat.div .binary64 v.toModel.unpack
    w.toModel.unpack) ?_
  rcases unpack_of_not_isFinite h with hv | ⟨s, hv⟩
  · rw [hv]
    rfl
  · rw [hv]
    rcases w.toModel.unpack with s' | _ | s' | _ <;> rfl

theorem isFinite_of_add (h : (v + w).isFinite = true) : v.isFinite = true := by
  by_contra hv
  rw [isFinite_add_of_not (Bool.eq_false_iff.mpr hv)] at h
  cases h

theorem isFinite_of_mul (h : (v * w).isFinite = true) : v.isFinite = true := by
  by_contra hv
  rw [isFinite_mul_of_not (Bool.eq_false_iff.mpr hv)] at h
  cases h

theorem isFinite_of_div (h : (v / w).isFinite = true) : v.isFinite = true := by
  by_contra hv
  rw [isFinite_div_of_not (Bool.eq_false_iff.mpr hv)] at h
  cases h

theorem beq_eq_false (hv : v.isFinite = false) (hw : w.isFinite = true) : (v == w) = false := by
  change v.toModel.unpack.beq w.toModel.unpack = false
  rcases unpack_of_not_isFinite hv with hunpack | ⟨s, hunpack⟩
  · rw [hunpack]
    rfl
  · rw [hunpack]
    rcases unpack_cases hw with ⟨s', hunpack', -⟩ | ⟨s', m, e, hm, hunpack', -, -⟩ <;>
      rw [hunpack'] <;> cases s <;> rfl

/-! ## Zeros -/

/-- A zero of either sign. -/
def IsZero (v : Float) : Prop :=
  ∃ s, v.toModel.unpack = .zero s

namespace IsZero

theorem of_pack (s : Sign) : IsZero (Float.ofModel (.pack (.zero s))) :=
  ⟨s, by cases s <;> rfl⟩

theorem isFinite (h : IsZero v) : v.isFinite = true := by
  obtain ⟨s, hs⟩ := h
  exact congrArg UnpackedFloat.isFinite hs

theorem value (h : IsZero v) : value v = 0 := by
  rcases unpack_cases h.isFinite with ⟨s, hunpack, hvalue⟩ | ⟨s, m, e, hm, hunpack, -⟩
  · exact hvalue
  · obtain ⟨s', hs'⟩ := h
    rw [hs'] at hunpack
    cases hunpack

theorem of_value (h : v.isFinite = true) (hvalue : Binary64.value v = 0) :
    IsZero v := by
  rcases unpack_cases h with ⟨s, hunpack, -⟩ | ⟨s, m, e, hm, hunpack, hvalue', -⟩
  · exact ⟨s, hunpack⟩
  · have happly : s.apply m ≠ 0 := by
      cases s
      · exact Int.neg_ne_zero.mpr (Int.natCast_ne_zero.mpr hm.ne')
      · exact Int.natCast_ne_zero.mpr hm.ne'
    rw [hvalue'] at hvalue
    exact absurd hvalue (mul_ne_zero (Int.cast_ne_zero.mpr happly) (zpow_ne_zero _ two_ne_zero))

theorem mul (h : IsZero v) (hw : w.isFinite = true) : IsZero (v * w) := by
  obtain ⟨s, hs⟩ := h
  have hmul : v * w = Float.ofModel (.pack (UnpackedFloat.mul .binary64 v.toModel.unpack
      w.toModel.unpack)) := rfl
  rcases unpack_cases hw with ⟨s', hunpack, -⟩ | ⟨s', m, e, hm, hunpack, -, -⟩ <;>
    rw [hmul, hs, hunpack] <;> exact of_pack (s * s')

theorem beq (h : IsZero v) (hw : IsZero w) : (v == w) = true := by
  obtain ⟨s, hs⟩ := h
  obtain ⟨s', hs'⟩ := hw
  change v.toModel.unpack.beq w.toModel.unpack = true
  rw [hs, hs']
  cases s <;> cases s' <;> rfl

/-- A zero added to a finite double changes it at most in the sign of a zero. -/
theorem add_beq (h : IsZero v) (hw : w.isFinite = true) : (v + w == w) = true := by
  obtain ⟨s, hs⟩ := h
  have hadd : v + w = Float.ofModel (.pack (UnpackedFloat.add .binary64 v.toModel.unpack
      w.toModel.unpack)) := rfl
  rcases unpack_cases hw with ⟨s', hunpack, -⟩ | ⟨s', m, e, hm, hunpack, -, -⟩
  · refine beq ?_ ⟨s', hunpack⟩
    rw [hadd, hs, hunpack]
    cases s <;> cases s' <;> exact of_pack _
  · have hself : v + w = w := by
      rw [hadd, hs, hunpack]
      exact ofModel_pack_of_unpack hunpack
    rw [hself]
    change w.toModel.unpack.beq w.toModel.unpack = true
    rw [hunpack]
    cases s' <;> simp [UnpackedFloat.beq, UnpackedFloat.compare]

end IsZero

theorem isZero_div (hv : v.isFinite = true) (hw : w.isInf = true) : IsZero (v / w) := by
  have hdiv : v / w = Float.ofModel (.pack (UnpackedFloat.div .binary64 v.toModel.unpack
      w.toModel.unpack)) := rfl
  obtain ⟨s', hunpack'⟩ : ∃ s, w.toModel.unpack = .infinity s := by
    rcases eq_infinity hw with rfl | rfl
    · exact ⟨.positive, rfl⟩
    · exact ⟨.negative, rfl⟩
  rcases unpack_cases hv with ⟨s, hunpack, -⟩ | ⟨s, m, e, hm, hunpack, -, -⟩ <;>
    rw [hdiv, hunpack, hunpack'] <;> exact .of_pack (s / s')

end Binary64

end ExprSampler
