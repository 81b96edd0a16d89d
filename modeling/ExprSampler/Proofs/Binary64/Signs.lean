import ExprSampler.Proofs.Binary64.Integers

/-!
# Signs of doubles

A double other than `nan` is its absolute value, with a minus in front of it if its sign bit is set.
Negative zero is no exception: it is told from zero by that bit alone. So to write a double it is
enough to write its sign and the number of its absolute value, and reading both gives it back.
-/

namespace ExprSampler

namespace Binary64

open Float.Model Float.Model.UnpackedFloat

/-- Patterns that differ in the sign bit are unpacked to doubles of opposite sign. -/
theorem unpack_eq_neg {b b' : BitVec 64}
    (hsign : Sign.ofBitVec (@unpackSign .binary64 b) = -Sign.ofBitVec (@unpackSign .binary64 b'))
    (hexponent : @unpackExponent .binary64 b = @unpackExponent .binary64 b')
    (hmantissa : @unpackMantissa .binary64 b = @unpackMantissa .binary64 b') :
    UnpackedFloat.unpack .binary64 b = (UnpackedFloat.unpack .binary64 b').neg := by
  rw [UnpackedFloat.unpack, UnpackedFloat.unpack]
  simp only [hsign, hexponent, hmantissa]
  -- The sign takes no part in the choice between the kinds of doubles.
  split
  · split <;> rfl
  · split
    · split <;> rfl
    · rfl

theorem ofBitVec_eq_neg {b b' : BitVec 1} (h : b.toNat = 1) (h' : b'.toNat = 0) :
    Sign.ofBitVec b = -Sign.ofBitVec b' := by
  obtain rfl : b = 1#1 := BitVec.eq_of_toNat_eq h
  obtain rfl : b' = 0#1 := BitVec.eq_of_toNat_eq h'
  rfl

variable {v : Float}

/-- Apart from the sign bit, the pattern of a double is at most that of infinity. -/
theorem number_le_infinity_of_not_isNaN (h : v.isNaN = false) : number v ≤ infinity := by
  have hnan : (UnpackedFloat.unpack .binary64 v.toBits.toBitVec).isNaN = false := h
  have he := toNat_unpackExponent v.toBits.toBitVec
  have hm := toNat_unpackMantissa v.toBits.toBitVec
  have hfields : @unpackExponent .binary64 v.toBits.toBitVec = -1#11 →
      @unpackMantissa .binary64 v.toBits.toBitVec = 0#52 := by
    intro hones
    by_contra hzero
    rw [UnpackedFloat.unpack, if_pos hones, if_neg hzero] at hnan
    cases hnan
  have hinfinity : infinity = 2047 * 2 ^ 52 := rfl
  have hnumber : number v = v.toBits.toBitVec.toNat % 2 ^ 63 := rfl
  by_cases hones : @unpackExponent .binary64 v.toBits.toBitVec = -1#11
  · have hexponent : (@unpackExponent .binary64 v.toBits.toBitVec).toNat = 2047 := by
      rw [hones]
      rfl
    have hmantissa : (@unpackMantissa .binary64 v.toBits.toBitVec).toNat = 0 := by
      rw [hfields hones]
      rfl
    omega
  · have hexponent : (@unpackExponent .binary64 v.toBits.toBitVec).toNat ≠ 2047 := fun h ↦
      hones (BitVec.eq_of_toNat_eq h)
    omega

/-- **A double is its absolute value behind its sign.** -/
theorem eq_of_isNegative (h : v.isNaN = false) :
    (if isNegative v then -(Float.ofBits (number v).toUInt64)
      else Float.ofBits (number v).toUInt64) = v := by
  have hle := number_le_infinity_of_not_isNaN h
  have hb := v.toBits.toBitVec.isLt
  have hnumber : number v = v.toBits.toBitVec.toNat % 2 ^ 63 := rfl
  have hnegative : isNegative v = decide (2 ^ 63 ≤ v.toBits.toBitVec.toNat) := by
    rw [isNegative, h]
    rfl
  rw [hnegative]
  by_cases hsign : 2 ^ 63 ≤ v.toBits.toBitVec.toNat
  · rw [decide_eq_true hsign, if_pos rfl]
    have hbits : (Float.ofBits (number v).toUInt64).toBits.toBitVec.toNat = number v :=
      toNat_toBits_ofBits hle
    generalize Float.ofBits (number v).toUInt64 = w at hbits ⊢
    have hunpack : v.toModel.unpack = w.toModel.unpack.neg := by
      change UnpackedFloat.unpack .binary64 v.toBits.toBitVec
        = (UnpackedFloat.unpack .binary64 w.toBits.toBitVec).neg
      refine unpack_eq_neg (ofBitVec_eq_neg ?_ ?_) (BitVec.eq_of_toNat_eq ?_)
        (BitVec.eq_of_toNat_eq ?_)
      · rw [toNat_unpackSign]
        omega
      · rw [toNat_unpackSign]
        omega
      · rw [toNat_unpackExponent, toNat_unpackExponent]
        omega
      · rw [toNat_unpackMantissa, toNat_unpackMantissa]
        omega
    have hneg : -w = Float.ofModel (.pack w.toModel.unpack.neg) := rfl
    rw [hneg, ← hunpack, ofModel_pack_unpack]
  · have hself : number v = v.toBits.toNat := by
      rw [hnumber]
      exact Nat.mod_eq_of_lt (Nat.not_le.mp hsign)
    rw [decide_eq_false hsign, if_neg Bool.false_ne_true, hself, Nat.toUInt64_eq,
      UInt64.ofNat_toNat, ofBits_toBits]

/-- Three doubles are not finite. -/
theorem eq_of_not_isFinite (h : v.isFinite = false) :
    v = notANumber ∨ v = positiveInfinity ∨ v = -positiveInfinity := by
  by_cases hnan : v.isNaN = true
  · exact .inl (eq_notANumber hnan)
  by_cases hinf : v.isInf = true
  · exact .inr (eq_infinity hinf)
  · rw [isFinite_of_not (Bool.eq_false_iff.mpr hnan) (Bool.eq_false_iff.mpr hinf)] at h
    cases h

theorem isNaN_eq_false_of_isFinite (h : v.isFinite = true) : v.isNaN = false := by
  refine Bool.eq_false_iff.mpr fun hnan ↦ ?_
  rw [eq_notANumber hnan] at h
  cases h

theorem isInf_eq_false_of_isFinite (h : v.isFinite = true) : v.isInf = false := by
  refine Bool.eq_false_iff.mpr fun hinf ↦ ?_
  rcases eq_infinity hinf with rfl | rfl <;> cases h

theorem number_lt_infinity (h : v.isFinite = true) : number v < infinity := by
  have hnan := isNaN_eq_false_of_isFinite h
  have hle := number_le_infinity_of_not_isNaN hnan
  have hself := eq_of_isNegative hnan
  refine Nat.lt_of_le_of_ne hle fun heq ↦ ?_
  rw [heq] at hself
  have hinf : ∀ b : Bool, (if b then -(Float.ofBits infinity.toUInt64)
      else Float.ofBits infinity.toUInt64).isFinite = false := by decide
  rw [← hself, hinf] at h
  cases h

end Binary64

end ExprSampler
