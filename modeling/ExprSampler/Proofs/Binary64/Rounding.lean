import ExprSampler.Proofs.Binary64.Ranks

/-!
# Rounding to the nearest double

An operation on doubles computes more bits of its result than fit, with two bits that tell what is
left behind them, shifts them to where they should stand and rounds. The two bits are carried
through the shift, so what is rounded is the exact result, and what is packed is the double nearest
to it. The bits shifted out are those cut off from the steps of the exact result.
-/

namespace ExprSampler

namespace Binary64

open Float.Model Float.Model.UnpackedFloat

/-! ## Mantissas with two more bits -/

/-- An extended mantissa stands for a quotient: with its round bit it is the number of halves below
the quotient, and the sticky bit tells whether anything is left. -/
structure Represents (x : ExtendedMantissa) (num den : Nat) : Prop where
  halves : 2 * num / den = 2 * x.mantissa + x.roundBit.toNat
  rest : x.stickyBit = true ↔ 2 * num % den ≠ 0

namespace Represents

variable {x : ExtendedMantissa} {num den : Nat}

theorem div_eq (h : Represents x num den) : num / den = x.mantissa := by
  have hround := Bool.toNat_lt x.roundBit
  rw [← Nat.mul_div_mul_left num den Nat.two_pos, Nat.mul_comm 2 den, ← Nat.div_div_eq_div_mul,
    h.halves]
  omega

/-- What is left below the mantissa is the half of the round bit and what is left of the halves. -/
theorem two_mul_mod (h : Represents x num den) :
    2 * (num % den) = den * x.roundBit.toNat + 2 * num % den := by
  have hsum := Nat.div_add_mod num den
  have hhalves := Nat.div_add_mod (2 * num) den
  rw [h.div_eq] at hsum
  rw [h.halves, Nat.mul_add, Nat.mul_left_comm] at hhalves
  omega

theorem shiftRightOne (hden : 0 < den) (h : Represents x num den) :
    Represents x.shiftRightOne num (den * 2) := by
  have hmod := h.two_mul_mod
  rw [← Nat.mul_mod_mul_left 2 num den, Nat.mul_comm 2 den] at hmod
  refine ⟨?_, ?_⟩
  · have hbit : (x.mantissa % 2 != 0).toNat = x.mantissa % 2 := by
      rcases Nat.mod_two_eq_zero_or_one x.mantissa with h | h <;> rw [h] <;> rfl
    change _ = 2 * (x.mantissa / 2) + (x.mantissa % 2 != 0).toNat
    rw [Nat.mul_comm den 2, Nat.mul_div_mul_left num den Nat.two_pos, h.div_eq, hbit]
    omega
  · change (x.roundBit || x.stickyBit) = true ↔ _
    rw [hmod, Bool.or_eq_true, h.rest]
    cases x.roundBit with
    | true => exact iff_of_true (.inl rfl) (by rw [Bool.toNat_true]; omega)
    | false => rw [Bool.toNat_false, Nat.mul_zero, Nat.zero_add, or_iff_right Bool.false_ne_true]

/-- Every shift doubles what the quotient is taken of. -/
theorem shiftRight (hden : 0 < den) (h : Represents x num den) (n : Nat) :
    Represents (x >>> n) num (den * 2 ^ n) := by
  change Represents (n.repeat ExtendedMantissa.shiftRightOne x) _ _
  induction n with
  | zero =>
    rw [Nat.pow_zero, Nat.mul_one]
    exact h
  | succ n ih =>
    rw [Nat.pow_succ, ← Nat.mul_assoc]
    exact ih.shiftRightOne (Nat.mul_pos hden (Nat.two_pow_pos n))

theorem roundedMantissa (hden : 0 < den) (h : Represents x num den) :
    x.roundedMantissa = divRound num den := by
  have hmod := h.two_mul_mod
  have hrest := h.rest
  have hlt := Nat.mod_lt (2 * num) hden
  generalize 2 * num % den = rest at hmod hrest hlt
  rw [divRound, hmod, h.div_eq]
  obtain ⟨m, round, sticky⟩ := x
  dsimp only at hrest ⊢
  -- The two bits are the order of what is left and the half.
  have hc : compare (den * round.toNat + rest) den
      = if round then if sticky then .gt else .eq else .lt := by
    cases round with
    | true =>
      rw [Bool.toNat_true, Nat.mul_one, if_pos rfl]
      cases sticky with
      | true =>
        rw [if_pos rfl]
        exact Nat.compare_eq_gt.mpr (by have := hrest.mp rfl; omega)
      | false =>
        rw [if_neg Bool.false_ne_true]
        exact Nat.compare_eq_eq.mpr (by have := hrest.not.mp Bool.false_ne_true; omega)
    | false =>
      rw [Bool.toNat_false, Nat.mul_zero, Nat.zero_add]
      exact Nat.compare_eq_lt.mpr hlt
  rw [hc]
  cases round <;> cases sticky <;> rfl

theorem of_exact (m : Nat) :
    Represents (ExtendedMantissa.ofMantissaAndAccuracy m .exact) m 1 where
  halves := Nat.div_one _
  rest := iff_of_false Bool.false_ne_true (not_not_intro (Nat.mod_one _))

theorem of_fraction (hden : 0 < den) (num : Nat) :
    Represents (ExtendedMantissa.ofMantissaAndAccuracy (num / den)
      (accuracyOfFraction (num % den) den)) num den := by
  have hsum := Nat.div_add_mod num den
  have hlt := Nat.mod_lt num hden
  have hhalves : ∀ round rest, 2 * (num % den) = den * round + rest → rest < den →
      2 * num / den = 2 * (num / den) + round ∧ 2 * num % den = rest := by
    intro round rest hmod hrest
    refine (Nat.div_mod_unique hden).mpr ⟨?_, hrest⟩
    rw [Nat.mul_add, Nat.mul_left_comm]
    omega
  rw [accuracyOfFraction]
  by_cases hzero : num % den = 0
  · obtain ⟨hdiv, hmod⟩ := hhalves 0 0 (by omega) hden
    rw [if_pos hzero]
    exact ⟨hdiv, iff_of_false Bool.false_ne_true (by omega)⟩
  rw [if_neg hzero]
  rcases hc : compare (2 * (num % den)) den with _ | _ | _
  · have horder := Nat.compare_eq_lt.mp hc
    obtain ⟨hdiv, hmod⟩ := hhalves 0 (2 * (num % den)) (by omega) horder
    exact ⟨hdiv, iff_of_true rfl (by omega)⟩
  · have horder := Nat.compare_eq_eq.mp hc
    obtain ⟨hdiv, hmod⟩ := hhalves 1 0 (by omega) hden
    exact ⟨hdiv, iff_of_false Bool.false_ne_true (by omega)⟩
  · have horder := Nat.compare_eq_gt.mp hc
    obtain ⟨hdiv, hmod⟩ := hhalves 1 (2 * (num % den) - den) (by omega) (by omega)
    exact ⟨hdiv, iff_of_true rfl (by omega)⟩

theorem mantissa_ofMantissaAndAccuracy (m : Nat) (a : Accuracy) :
    (ExtendedMantissa.ofMantissaAndAccuracy m a).mantissa = m := by
  rcases a with _ | _ | _ | _ <;> rfl

end Represents

/-! ## Ranks of packed doubles -/

theorem toNat_packComponents (s : Sign) (e : BitVec 11) (m : BitVec 52) :
    (packComponents .binary64 s e m).toNat
      = s.toBitVec.toNat * 2 ^ 63 + (e.toNat * 2 ^ 52 + m.toNat) := by
  have hm : m.toNat < 2 ^ 52 := m.isLt
  have he : e.toNat < 2 ^ 11 := e.isLt
  change ((s.toBitVec ++ e) ++ m).toNat = _
  rw [BitVec.toNat_append, BitVec.toNat_append, ← Nat.shiftLeft_add_eq_or_of_lt he,
    ← Nat.shiftLeft_add_eq_or_of_lt hm, Nat.shiftLeft_eq, Nat.shiftLeft_eq]
  omega

/-- A pattern of a sign and a number up to that of infinity has the rank they give. -/
theorem rank_of_packComponents {x : UnpackedFloat} {s : Sign} {e : BitVec 11} {m : BitVec 52}
    {n : Nat} (hx : x.pack .binary64 = packComponents .binary64 s e m)
    (hn : e.toNat * 2 ^ 52 + m.toNat = n) (hle : n ≤ infinity) :
    (Float.ofModel (.pack x)).isNaN = false ∧ rank (Float.ofModel (.pack x)) = s.apply n := by
  have hinfinity : infinity = 2047 * 2 ^ 52 := rfl
  have hbits : (Float.ofModel (.pack x)).toBits.toNat = s.toBitVec.toNat * 2 ^ 63 + n := by
    rw [← hn, ← toNat_packComponents, ← hx]
    rfl
  generalize Float.ofModel (.pack x) = v at hbits
  have hnumber : number v = n := by
    change v.toBits.toNat % 2 ^ 63 = n
    omega
  have hnan : v.isNaN = false := isNaN_eq_false_of_number (by rwa [hnumber])
  refine ⟨hnan, ?_⟩
  rw [rank, isNegative, hnan, hnumber]
  change (if (true && decide (2 ^ 63 ≤ v.toBits.toNat)) = true then -(n : Int) else n) = _
  cases s with
  | positive =>
    have hzero : Sign.positive.toBitVec.toNat = 0 := rfl
    rw [hzero] at hbits
    rw [decide_eq_false (by omega)]
    rfl
  | negative =>
    have hset : Sign.negative.toBitVec.toNat = 1 := rfl
    rw [hset] at hbits
    rw [decide_eq_true (by omega)]
    rfl

theorem rank_pack_zero (s : Sign) :
    (Float.ofModel (.pack (.zero s))).isNaN = false ∧
      rank (Float.ofModel (.pack (.zero s))) = s.apply 0 :=
  rank_of_packComponents (n := 0) rfl rfl (Nat.zero_le _)

section

variable {s : Sign} {m : Nat} {hm : 0 < m}

theorem rank_pack_subnormal (hhi : m < 2 ^ 52) :
    (Float.ofModel (.pack (.finite s m (-1074) hm))).isNaN = false ∧
      rank (Float.ofModel (.pack (.finite s m (-1074) hm))) = s.apply m := by
  have hinfinity : infinity = 2047 * 2 ^ 52 := rfl
  refine rank_of_packComponents (pack_subnormal hhi) ?_ (by omega)
  rw [BitVec.toNat_ofNat, BitVec.toNat_ofNat]
  omega

theorem rank_pack_normal (hlo : 2 ^ 52 ≤ m) (hhi : m < 2 ^ 53) (c : Nat) :
    (Float.ofModel (.pack (.finite s m (c - 1074) hm))).isNaN = false ∧
      rank (Float.ofModel (.pack (.finite s m (c - 1074) hm)))
        = s.apply (min infinity (c * 2 ^ 52 + m) : Nat) := by
  have hinfinity : infinity = 2047 * 2 ^ 52 := rfl
  by_cases hc : c + 1 < 2047
  · have hpack : UnpackedFloat.pack .binary64 (.finite s m ((c + 1 : Nat) - 1075) hm) = _ :=
      pack_normal hlo hhi hc
    rw [show ((c + 1 : Nat) : Int) - 1075 = c - 1074 by omega] at hpack
    refine rank_of_packComponents hpack ?_ (Nat.min_le_left _ _)
    rw [BitVec.toNat_ofNat, BitVec.toNat_ofNat, Nat.min_eq_right (by omega)]
    omega
  · have hbias : ((c : Int) - 1074 + (Format.binary64.exponentBias : Int) + (52 : Nat)).toNat
        = c + 1 := by
      have : Format.binary64.exponentBias = 1023 := rfl
      omega
    have hpack : UnpackedFloat.pack .binary64 (.finite s m (c - 1074) hm)
        = packComponents .binary64 s (-1#11) 0#52 := by
      simp only [UnpackedFloat.pack, hbias]
      rw [if_pos (by omega)]
      rfl
    refine rank_of_packComponents hpack ?_ (Nat.min_le_left _ _)
    rw [Nat.min_eq_left (by omega)]
    rfl

end

/-! ## Mantissas that were rounded -/

theorem targetExponent_eq (e : Int) : Format.binary64.targetExponent e = max (e - 53) (-1074) :=
  rfl

/-- A mantissa may have been rounded to one bit more than there is room for; then it is even, and
shifting it once more cuts nothing off. -/
theorem shiftToTargetExponent_rounded {r : Nat} (hr : r ≤ 2 ^ 53) (c : Nat) :
    (shiftToTargetExponent .binary64 r (c - 1074) .exact).1.mantissa
        = (if r < 2 ^ 53 then r else 2 ^ 52) ∧
      (shiftToTargetExponent .binary64 r (c - 1074) .exact).2
        = ((if r < 2 ^ 53 then c else c + 1 : Nat) : Int) - 1074 := by
  rw [shiftToTargetExponent, shiftToExponent, targetExponent_eq, totalExponent]
  rcases hr.lt_or_eq with hlt | rfl
  · have hlog : r.log2 < 53 := by
      by_cases hzero : r = 0
      · rw [hzero, Nat.log2_zero]
        exact Nat.succ_pos 52
      · exact (Nat.log2_lt hzero).mpr hlt
    have hshift : (max ((r.log2 : Int) + 1 + (c - 1074) - 53) (-1074) - (c - 1074)).toNat = 0 := by
      omega
    rw [if_pos hlt, if_pos hlt]
    simp only [hshift]
    exact ⟨rfl, Int.add_zero _⟩
  · have hshift : (max (((2 ^ 53 : Nat).log2 : Int) + 1 + (c - 1074) - 53) (-1074)
        - (c - 1074)).toNat = 1 := by
      rw [Nat.log2_two_pow]
      omega
    rw [if_neg (Nat.lt_irrefl _), if_neg (Nat.lt_irrefl _)]
    simp only [hshift]
    refine ⟨rfl, ?_⟩
    omega

/-- What rounding makes of a mantissa that it has rounded. -/
def settled (s : Sign) (r : Nat) (e : Int) : UnpackedFloat :=
  if h : (shiftToTargetExponent .binary64 r e .exact).1.mantissa = 0 then .zero s
  else .finite s _ (shiftToTargetExponent .binary64 r e .exact).2 (Nat.pos_of_ne_zero h)

theorem roundWithAccuracy_eq (s : Sign) (m : Nat) (e : Int) (a : Accuracy) :
    roundWithAccuracy .binary64 s m e a
      = settled s (shiftToTargetExponent .binary64 m e a).1.roundedMantissa
          (shiftToTargetExponent .binary64 m e a).2 :=
  rfl

theorem settled_of_ne_zero {s : Sign} {r m : Nat} {e e' : Int}
    (hm : (shiftToTargetExponent .binary64 r e .exact).1.mantissa = m)
    (he : (shiftToTargetExponent .binary64 r e .exact).2 = e') (hpos : 0 < m) :
    settled s r e = .finite s m e' hpos := by
  subst hm he
  exact dif_neg hpos.ne'

/-- A rounded mantissa and the number of bits cut off before give the number of the double. -/
theorem rank_settled (s : Sign) {r c : Nat} (hr : r ≤ 2 ^ 53) (hc : c ≠ 0 → 2 ^ 52 ≤ r) :
    (Float.ofModel (.pack (settled s r (c - 1074)))).isNaN = false ∧
      rank (Float.ofModel (.pack (settled s r (c - 1074))))
        = s.apply (min infinity (c * 2 ^ 52 + r) : Nat) := by
  have hinfinity : infinity = 2047 * 2 ^ 52 := rfl
  obtain ⟨hmantissa, hexponent⟩ := shiftToTargetExponent_rounded hr c
  rcases r.eq_zero_or_pos with rfl | hpos
  · obtain rfl : c = 0 := by omega
    exact rank_pack_zero s
  by_cases hlt : r < 2 ^ 53
  · rw [if_pos hlt] at hmantissa hexponent
    rw [settled_of_ne_zero hmantissa hexponent hpos]
    by_cases hlo : 2 ^ 52 ≤ r
    · exact rank_pack_normal hlo hlt c
    · obtain rfl : c = 0 := by omega
      rw [show min infinity (0 * 2 ^ 52 + r) = r by omega]
      exact rank_pack_subnormal (not_le.mp hlo)
  · obtain rfl : r = 2 ^ 53 := by omega
    rw [if_neg hlt] at hmantissa hexponent
    rw [settled_of_ne_zero hmantissa hexponent (Nat.two_pow_pos 52),
      show c * 2 ^ 52 + 2 ^ 53 = (c + 1) * 2 ^ 52 + 2 ^ 52 by omega]
    exact rank_pack_normal le_rfl (by omega) (c + 1)

/-! ## The nearest double -/

/-- The steps below a quotient, compared with a power of two. -/
theorem two_pow_le_iff {den : Nat} (hden : 0 < den) (num k : Nat) :
    2 ^ k ≤ num * one / den ↔ (2 : ℚ) ^ ((k : Int) - 1074) ≤ num / den := by
  obtain ⟨e, he, hone⟩ := exists_one_eq
  have hden' : (0 : ℚ) < den := Nat.cast_pos.mpr hden
  have hpow : (0 : ℚ) < 2 ^ e := pow_pos two_pos e
  rw [Nat.le_div_iff_mul_le hden, hone, show (1074 : Int) = e by omega, zpow_sub₀ two_ne_zero,
    zpow_natCast, zpow_natCast, div_le_div_iff₀ hpow hden']
  exact_mod_cast Iff.rfl

/-- The cut leaves the exponent that a mantissa of 53 bits has, or the least one. -/
theorem cut_eq {num den m : Nat} {e : Int} (hden : 0 < den) (hlo : m * 2 ^ e ≤ (num / den : ℚ))
    (hhi : (num / den : ℚ) < (m + 1) * 2 ^ e)
    (he : e ≤ Format.binary64.targetExponent (totalExponent m e)) :
    Format.binary64.targetExponent (totalExponent m e) = cut num den - 1074 := by
  have hpow : (0 : ℚ) < 2 ^ e := zpow_pos two_pos e
  -- Below one step nothing is cut off.
  have hsmall : (num / den : ℚ) < 2 ^ (-1074 : Int) → cut num den = 0 := by
    intro hlt
    have hone := (two_pow_le_iff hden num 0).not.mpr (not_le.mpr hlt)
    have hzero : num * one / den = 0 := Nat.lt_one_iff.mp (not_le.mp hone)
    rw [cut, hzero, Nat.log2_zero]
  rw [targetExponent_eq, totalExponent] at he ⊢
  rcases m.eq_zero_or_pos with rfl | hm
  · have hlog : Nat.log2 0 = 0 := Nat.log2_zero
    have hlt : (num / den : ℚ) < 2 ^ (-1074 : Int) := by
      rw [Nat.cast_zero, zero_add, one_mul] at hhi
      exact hhi.trans_le (zpow_le_zpow_right₀ one_le_two (by omega))
    rw [hsmall hlt]
    omega
  · have hlo' : (2 : ℚ) ^ (m.log2 + e) ≤ num / den := by
      refine le_trans ?_ hlo
      rw [zpow_add₀ two_ne_zero, zpow_natCast]
      exact mul_le_mul_of_nonneg_right (mod_cast Nat.log2_self_le hm.ne') hpow.le
    have hhi' : (num / den : ℚ) < 2 ^ ((m.log2 + 1 : Nat) + e) := by
      refine hhi.trans_le ?_
      rw [zpow_add₀ two_ne_zero, zpow_natCast]
      exact mul_le_mul_of_nonneg_right (mod_cast Nat.lt_log2_self) hpow.le
    by_cases hk : (m.log2 : Int) + e + 1074 < 0
    · have hlt : (num / den : ℚ) < 2 ^ (-1074 : Int) :=
        hhi'.trans_le (zpow_le_zpow_right₀ one_le_two (by omega))
      rw [hsmall hlt]
      omega
    · obtain ⟨k, hk⟩ : ∃ k : Nat, (k : Int) = m.log2 + e + 1074 :=
        ⟨_, Int.toNat_of_nonneg (not_lt.mp hk)⟩
      have hge := (two_pow_le_iff hden num k).mpr (by rwa [show (k : Int) - 1074 = m.log2 + e by omega])
      have hlt := (two_pow_le_iff hden num (k + 1)).not.mpr (not_le.mpr (by
        rwa [show ((k + 1 : Nat) : Int) - 1074 = (m.log2 + 1 : Nat) + e by omega]))
      have hlog : (num * one / den).log2 = k := by
        refine (Nat.log2_eq_iff ?_).mpr ⟨hge, not_le.mp hlt⟩
        exact Nat.ne_of_gt ((Nat.two_pow_pos k).trans_le hge)
      rw [cut, hlog]
      omega

theorem rank_roundWithAccuracy (s : Sign) {m num den num' den' : Nat} {e : Int} {a : Accuracy}
    (hden : 0 < den) (hden' : 0 < den')
    (ha : Represents (ExtendedMantissa.ofMantissaAndAccuracy m a) num den)
    (he : e ≤ Format.binary64.targetExponent (totalExponent m e))
    (hvalue : (num' / den' : ℚ) = num / den * 2 ^ e) :
    (Float.ofModel (.pack (roundWithAccuracy .binary64 s m e a))).isNaN = false ∧
      rank (Float.ofModel (.pack (roundWithAccuracy .binary64 s m e a)))
        = s.apply (nearest num' den') := by
  have hpow : (0 : ℚ) < 2 ^ e := zpow_pos two_pos e
  have hfloor : num / den = m := ha.div_eq.trans (Represents.mantissa_ofMantissaAndAccuracy m a)
  have hlo : m * 2 ^ e ≤ (num' / den' : ℚ) := by
    rw [hvalue, ← hfloor]
    exact mul_le_mul_of_nonneg_right Nat.cast_div_le hpow.le
  have hhi : (num' / den' : ℚ) < (m + 1) * 2 ^ e := by
    rw [hvalue, ← hfloor]
    refine mul_lt_mul_of_pos_right ?_ hpow
    rw [div_lt_iff₀ (Nat.cast_pos.mpr hden), mul_comm]
    exact_mod_cast Nat.lt_mul_div_succ num hden
  have htarget := cut_eq hden' hlo hhi he
  obtain ⟨n, hn⟩ : ∃ n, (Format.binary64.targetExponent (totalExponent m e) - e).toNat = n :=
    ⟨_, rfl⟩
  have hexponent : (shiftToTargetExponent .binary64 m e a).2 = cut num' den' - 1074 := by
    rw [shiftToTargetExponent, shiftToExponent]
    dsimp only
    omega
  have hcross : num * (den' * 2 ^ cut num' den') = num' * one * (den * 2 ^ n) := by
    obtain ⟨k, hk, hone⟩ := exists_one_eq
    have hbits : (2 : ℚ) ^ cut num' den' = 2 ^ e * 2 ^ k * 2 ^ n := by
      have hsum : (cut num' den' : Int) = e + k + n := by omega
      rw [← zpow_natCast, hsum, zpow_add₀ two_ne_zero, zpow_add₀ two_ne_zero, zpow_natCast,
        zpow_natCast]
    have hvalue : (num' * den : ℚ) = num * 2 ^ e * den' := by
      rw [div_mul_eq_mul_div, div_eq_div_iff (Nat.cast_ne_zero.mpr hden'.ne')
        (Nat.cast_ne_zero.mpr hden.ne')] at hvalue
      exact hvalue
    have hcast : (num * (den' * 2 ^ cut num' den') : ℚ) = num' * 2 ^ k * (den * 2 ^ n) := by
      rw [hbits]
      linear_combination -(2 ^ k * 2 ^ n) * hvalue
    rw [hone]
    exact_mod_cast hcast
  have hmantissa : (shiftToTargetExponent .binary64 m e a).1.roundedMantissa = kept num' den' := by
    have hshift := (ha.shiftRight hden n).roundedMantissa (Nat.mul_pos hden (Nat.two_pow_pos n))
    rw [shiftToTargetExponent, shiftToExponent]
    dsimp only
    rw [hn, hshift, kept]
    exact divRound_congr (Nat.mul_pos hden (Nat.two_pow_pos n))
      (Nat.mul_pos hden' (Nat.two_pow_pos _)) hcross
  rw [roundWithAccuracy_eq, hexponent, hmantissa, nearest_eq]
  exact rank_settled s (kept_le num' den') le_kept

theorem rankOf_apply (s : Sign) {q : ℚ} (hq : 0 ≤ q) :
    rankOf (s.apply 1 * q) = s.apply (nearest q.num.natAbs q.den) := by
  cases s with
  | positive =>
    have hsign : ((Sign.positive.apply 1 : Int) : ℚ) = 1 := Int.cast_one
    rw [hsign, one_mul]
    exact rankOf_of_nonneg hq
  | negative =>
    have hsign : ((Sign.negative.apply 1 : Int) : ℚ) = -1 := by
      rw [Sign.apply, Int.cast_neg, Int.cast_one]
    rw [hsign, neg_one_mul, rankOf_neg, rankOf_of_nonneg hq]
    rfl

/-- **Rounding a mantissa leads to the nearest double**, if it comes with enough bits: it stands for
a quotient, and its exponent is not above the one it should have. -/
theorem isNearest_roundWithAccuracy (s : Sign) {m num den : Nat} {e : Int} {a : Accuracy}
    (hden : 0 < den) (ha : Represents (ExtendedMantissa.ofMantissaAndAccuracy m a) num den)
    (he : e ≤ Format.binary64.targetExponent (totalExponent m e)) :
    IsNearest (Float.ofModel (.pack (roundWithAccuracy .binary64 s m e a)))
      (s.apply 1 * (num / den * 2 ^ e)) := by
  have hq : (0 : ℚ) ≤ num / den * 2 ^ e := by positivity
  obtain ⟨hnan, hrank⟩ := rank_roundWithAccuracy s hden (Rat.den_pos _) ha he
    (cast_eq_num_div_den hq)
  exact ⟨hnan, hrank.trans (rankOf_apply s hq).symm⟩

theorem isNearest_pack_zero (s : Sign) : IsNearest (Float.ofModel (.pack (.zero s))) 0 := by
  obtain ⟨hnan, hrank⟩ := rank_pack_zero s
  have hzero : s.apply 0 = 0 := by cases s <;> rfl
  exact ⟨hnan, hrank.trans (hzero.trans rankOf_zero.symm)⟩

theorem log2_mul_two_pow {m : Nat} (hm : 0 < m) (n : Nat) : (m * 2 ^ n).log2 = m.log2 + n := by
  have hpow := Nat.two_pow_pos n
  rw [Nat.log2_eq_iff (Nat.mul_pos hm hpow).ne', Nat.add_right_comm, Nat.pow_add, Nat.pow_add]
  exact ⟨Nat.mul_le_mul_right _ (Nat.log2_self_le hm.ne'),
    Nat.mul_lt_mul_of_pos_right Nat.lt_log2_self hpow⟩

/-- So does rounding a multiple of a power of two. -/
theorem isNearest_round (s : Sign) {m : Nat} (hm : 0 < m) (e : Int) :
    IsNearest (Float.ofModel (.pack (UnpackedFloat.round .binary64 s m e)))
      (s.apply 1 * (m * 2 ^ e)) := by
  obtain ⟨n, hn⟩ : ∃ n, (e - Format.binary64.targetExponent (totalExponent m e)).toNat = n :=
    ⟨_, rfl⟩
  have hround : UnpackedFloat.round .binary64 s m e
      = roundWithAccuracy .binary64 s (m * 2 ^ n) (e - n) .exact := by
    rw [← Nat.shiftLeft_eq, ← hn]
    rfl
  have hroom : e - n ≤ Format.binary64.targetExponent (totalExponent (m * 2 ^ n) (e - n)) := by
    rw [targetExponent_eq, totalExponent] at hn ⊢
    rw [log2_mul_two_pow hm]
    omega
  have hnearest := isNearest_roundWithAccuracy s Nat.one_pos (.of_exact (m * 2 ^ n)) hroom
  have hvalue : ((m * 2 ^ n : Nat) / (1 : Nat) * 2 ^ (e - n) : ℚ) = m * 2 ^ e := by
    rw [Nat.cast_one, div_one, Nat.cast_mul, Nat.cast_pow, Nat.cast_ofNat, mul_assoc,
      ← zpow_natCast, ← zpow_add₀ two_ne_zero, add_sub_cancel]
  rwa [← hround, hvalue] at hnearest

/-- And so does rounding an integer multiple of a power of two, as sums and differences are. -/
theorem isNearest_normalize (m : Int) (e : Int) (s : Sign) :
    IsNearest (Float.ofModel (.pack (UnpackedFloat.normalize .binary64 m e s))) (m * 2 ^ e) := by
  rcases Int.lt_trichotomy m 0 with hlt | rfl | hgt
  · have hnearest := isNearest_round .negative (m := (-m).toNat) (by omega) e
    have hsize : (((-m).toNat : Int) : ℚ) = -m := by
      rw [Int.toNat_of_nonneg (by omega), Int.cast_neg]
    rw [Int.cast_natCast] at hsize
    unfold UnpackedFloat.normalize
    rw [Int.compare_eq_lt.mpr hlt]
    rwa [hsize, Sign.apply, Int.cast_neg, Int.cast_one, neg_one_mul, neg_mul, neg_neg] at hnearest
  · rw [Int.cast_zero, zero_mul]
    exact isNearest_pack_zero s
  · have hnearest := isNearest_round .positive (m := m.toNat) (by omega) e
    have hsize : ((m.toNat : Int) : ℚ) = m := by
      rw [Int.toNat_of_nonneg hgt.le]
    rw [Int.cast_natCast] at hsize
    unfold UnpackedFloat.normalize
    rw [Int.compare_eq_gt.mpr hgt]
    rwa [hsize, Sign.apply, Int.cast_one, one_mul] at hnearest

end Binary64

end ExprSampler
