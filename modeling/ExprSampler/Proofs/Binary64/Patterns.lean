import ExprSampler.Expr.Power
import Mathlib

/-!
# Bit patterns of doubles

A double is what its bit pattern unpacks to: a zero or an infinity with a sign, no number, or a
sign with a mantissa and an exponent. Unpacking loses nothing, since all patterns of doubles that
are no number are one, so a double can be recovered from what it unpacks to.
-/

namespace ExprSampler

namespace Binary64

open Float.Model Float.Model.UnpackedFloat

/-! ## Packing what was unpacked -/

theorem toBitVec_ofBitVec (b : BitVec 1) : (Sign.ofBitVec b).toBitVec = b := by
  revert b
  decide

/-- A pattern is put together from its three fields. -/
theorem pattern_of_fields (b : BitVec 64) :
    packComponents .binary64 (.ofBitVec (@unpackSign .binary64 b)) (unpackExponent b)
      (unpackMantissa b) = b := by
  rw [packComponents, toBitVec_ofBitVec]
  refine BitVec.eq_of_getLsbD_eq fun i hi ↦ ?_
  have hi : i < 64 := hi
  simp only [unpackSign, unpackExponent, unpackMantissa, BitVec.getLsbD_append,
    BitVec.getLsbD_cast, BitVec.getLsbD_extractLsb]
  -- The bit is one of the mantissa, of the exponent, or the sign.
  by_cases hm : i < 52
  · simp [hm]
  · by_cases he : i < 63
    · have hshift : 52 + (i - 52) = i := by omega
      simp [hm, hshift, show i - 52 < 11 by omega]
    · obtain rfl : i = 63 := by omega
      simp
      exact BitVec.getLsbD_eq_getElem hi

/-- The value of a mantissa whose leading bit is left out of the pattern. -/
theorem toNat_one_append (m : BitVec 52) : (1#1 ++ m).toNat = 2 ^ 52 + m.toNat := by
  have hm := m.isLt
  rw [BitVec.toNat_append, ← Nat.shiftLeft_add_eq_or_of_lt hm]
  rfl

section

variable {s : Sign} {m k : Nat} {hm : 0 < m}

theorem pack_normal (hlo : 2 ^ 52 ≤ m) (hhi : m < 2 ^ 53) (hk : k < 2047) :
    UnpackedFloat.pack .binary64 (.finite s m (k - 1075) hm)
      = packComponents .binary64 s (BitVec.ofNat 11 k) (BitVec.ofNat 52 m) := by
  have hlog : m.log2 = 52 :=
    Nat.le_antisymm (Nat.le_of_lt_succ ((Nat.log2_lt (Nat.ne_of_gt hm)).mpr hhi))
      ((Nat.le_log2 (Nat.ne_of_gt hm)).mpr hlo)
  have hbias :
      ((k : Int) - 1075 + (Format.binary64.exponentBias : Int) + (52 : Nat)).toNat = k := by
    have : Format.binary64.exponentBias = 1023 := rfl
    omega
  have hroom : ¬2 ^ 11 ≤ k + 1 := by omega
  simp only [UnpackedFloat.pack, hbias, hlog, if_neg hroom]
  rfl

theorem pack_subnormal (hhi : m < 2 ^ 52) :
    UnpackedFloat.pack .binary64 (.finite s m (-1074) hm)
      = packComponents .binary64 s 0#11 (BitVec.ofNat 52 m) := by
  have hlog : m.log2 < 52 := (Nat.log2_lt (Nat.ne_of_gt hm)).mpr hhi
  have hshort : ¬m.log2 + 1 = Format.binary64.mantissaBits := by
    have : Format.binary64.mantissaBits = 53 := rfl
    omega
  simp only [UnpackedFloat.pack, if_neg hshort]
  rfl

end

theorem pack_unpack {b : BitVec 64} (h : Format.binary64.Valid b) :
    UnpackedFloat.pack .binary64 (UnpackedFloat.unpack .binary64 b) = b := by
  have hfields := pattern_of_fields b
  have hm : (@unpackMantissa .binary64 b).toNat < 2 ^ 52 := BitVec.isLt _
  have he : (@unpackExponent .binary64 b).toNat < 2 ^ 11 := BitVec.isLt _
  rw [UnpackedFloat.unpack]
  split
  · next hexp =>
    split
    · next hmant =>
      rw [hexp, hmant] at hfields
      exact hfields
    · next hmant => exact (h.eq_packedNaN hexp hmant).symm
  · next hexp =>
    split
    · next hexp' =>
      rw [hexp'] at hfields
      split
      · next hmant =>
        rw [hmant] at hfields
        exact hfields
      · next hmant =>
        rw [hexp']
        refine (pack_subnormal hm).trans ?_
        rw [BitVec.ofNat_toNat, BitVec.setWidth_eq]
        exact hfields
    · next hexp' =>
      -- Here the pattern leaves out the leading bit, which unpacking has put back.
      have hones : (@unpackExponent .binary64 b).toNat ≠ 2047 := fun h ↦
        hexp (BitVec.eq_of_toNat_eq h)
      have hfit : 2 ^ 52 ≤ (1#1 ++ @unpackMantissa .binary64 b).toNat ∧
          (1#1 ++ @unpackMantissa .binary64 b).toNat < 2 ^ 53 := by
        have := toNat_one_append (@unpackMantissa .binary64 b)
        omega
      refine (pack_normal (k := (@unpackExponent .binary64 b).toNat) hfit.1 hfit.2
        (by omega)).trans ?_
      have hmant : BitVec.ofNat 52 (1#1 ++ @unpackMantissa .binary64 b).toNat
          = @unpackMantissa .binary64 b := by
        refine BitVec.eq_of_toNat_eq ?_
        rw [BitVec.toNat_ofNat, toNat_one_append]
        omega
      rw [hmant, BitVec.ofNat_toNat, BitVec.setWidth_eq]
      exact hfields

variable {v w : Float}

theorem ofModel_pack_unpack (v : Float) : Float.ofModel (.pack v.toModel.unpack) = v := by
  obtain ⟨⟨bits, valid⟩⟩ := v
  rw [Float.ofModel.injEq, Float.Model.pack, Float.Model.mk.injEq]
  exact congrArg UInt64.ofBitVec (pack_unpack valid)

theorem eq_of_unpack_eq (h : v.toModel.unpack = w.toModel.unpack) : v = w := by
  rw [← ofModel_pack_unpack v, h, ofModel_pack_unpack]

theorem ofBits_toBits (v : Float) : Float.ofBits v.toBits = v :=
  ofModel_pack_unpack v

theorem toBits_ofBits {n : UInt64} (h : Format.binary64.Valid n.toBitVec) :
    (Float.ofBits n).toBits = n :=
  congrArg UInt64.ofBitVec (pack_unpack h)

/-! ## Special values -/

theorem eq_notANumber (h : v.isNaN = true) : v = notANumber := by
  have h : v.toModel.unpack.isNaN = true := h
  refine eq_of_unpack_eq ?_
  rcases hv : v.toModel.unpack with s | _ | s | ⟨s, m, e, hm⟩ <;> rw [hv] at h
  · cases h
  · rfl
  · cases h
  · cases h

theorem eq_infinity (h : v.isInf = true) : v = positiveInfinity ∨ v = -positiveInfinity := by
  have h : v.toModel.unpack.isInf = true := h
  rcases hv : v.toModel.unpack with s | _ | s | ⟨s, m, e, hm⟩ <;> rw [hv] at h
  · cases s with
    | positive => exact .inl (eq_of_unpack_eq hv)
    | negative => exact .inr (eq_of_unpack_eq hv)
  · cases h
  · cases h
  · cases h

/-- Only zeros are equal without being the same. -/
theorem eq_of_beq_finite {s : Sign} {m : Nat} {e : Int} {hm : 0 < m}
    (hw : w.toModel.unpack = .finite s m e hm) (h : (v == w) = true) : v = w := by
  have h : v.toModel.unpack.beq w.toModel.unpack = true := h
  refine eq_of_unpack_eq ?_
  rw [hw] at h ⊢
  rcases hv : v.toModel.unpack with s' | _ | s' | ⟨s', m', e', hm'⟩ <;> rw [hv] at h
  · cases s' <;> cases h
  · cases h
  · cases s <;> cases h
  · have hsame : s' = s ∧ (compare e' e).then (compare m' m) = .eq := by
      cases s' <;> cases s <;> simp_all [UnpackedFloat.beq, UnpackedFloat.compare]
    obtain ⟨rfl, hsame⟩ := hsame
    obtain ⟨he, hm⟩ := Ordering.then_eq_eq.mp hsame
    obtain rfl := Int.compare_eq_eq.mp he
    obtain rfl := Nat.compare_eq_eq.mp hm
    rfl

theorem eq_zero (h : (v == 0.0) = true) : v = 0.0 ∨ v = -0.0 := by
  have h : v.toModel.unpack.beq (0.0 : Float).toModel.unpack = true := h
  have hzero : (0.0 : Float).toModel.unpack = .zero .positive := rfl
  rw [hzero] at h
  rcases hv : v.toModel.unpack with s | _ | s | ⟨s, m, e, hm⟩ <;> rw [hv] at h
  · cases s <;> cases h
  · cases h
  · cases s with
    | positive => exact .inl (eq_of_unpack_eq hv)
    | negative => exact .inr (eq_of_unpack_eq hv)
  · cases s <;> cases h

end Binary64

end ExprSampler
