import ExprSampler.Proofs.Binary64.Rounding

/-!
# Arithmetic on finite doubles

The sum, the difference, the product and the quotient of two finite doubles are the doubles nearest
to those of their values. Only the quotient by a zero is excluded.
-/

namespace ExprSampler

namespace Binary64

open Float.Model Float.Model.UnpackedFloat

variable {v w : Float}

/-! ## Unpacked finite doubles -/

/-- A mantissa and an exponent as those of doubles: the mantissa has 53 bits, unless the exponent is
the least one. -/
structure Canonical (m : Nat) (e : Int) : Prop where
  least : -1074 ≤ e
  short : m < 2 ^ 53
  full : 2 ^ 52 ≤ m ∨ e = -1074

theorem rank_eq_apply (h : v.isNaN = false) :
    rank v = (Sign.ofBitVec (@unpackSign .binary64 v.toBits.toBitVec)).apply (number v) := by
  have hsign := toNat_unpackSign v.toBits.toBitVec
  have hbits := v.toBits.toBitVec.isLt
  rw [rank, isNegative, h]
  change (if (true && decide (2 ^ 63 ≤ v.toBits.toBitVec.toNat)) = true then _ else _) = _
  by_cases hset : 2 ^ 63 ≤ v.toBits.toBitVec.toNat
  · obtain hone : @unpackSign .binary64 v.toBits.toBitVec = 1#1 :=
      BitVec.eq_of_toNat_eq (by rw [hsign]; change _ = 1; omega)
    rw [decide_eq_true hset, hone]
    rfl
  · obtain hzero : @unpackSign .binary64 v.toBits.toBitVec = 0#1 :=
      BitVec.eq_of_toNat_eq (by rw [hsign]; change _ = 0; omega)
    rw [decide_eq_false hset, hzero]
    rfl

theorem cast_apply (s : Sign) (n : Nat) : ((s.apply n : Int) : ℚ) = (s.apply 1 : Int) * n := by
  cases s with
  | positive => exact (one_mul _).symm
  | negative =>
    rw [Sign.apply, Sign.apply, Int.cast_neg, Int.cast_neg, Int.cast_one, neg_one_mul,
      Int.cast_natCast]

theorem valueOf_apply (s : Sign) (n : Nat) :
    valueOf (s.apply n) = (s.apply 1 : Int) * (steps n / one) := by
  cases s with
  | positive => 
    rw [Sign.apply, Sign.apply, Int.cast_one, one_mul, valueOf_natCast]
  | negative =>
    rw [Sign.apply, Sign.apply, Int.cast_neg, Int.cast_one, neg_one_mul, valueOf_neg,
      valueOf_natCast]

theorem steps_div_one {n m j : Nat} {e : Int} (hsteps : steps n = m * 2 ^ j)
    (he : e = j - 1074) : (steps n / one : ℚ) = m * 2 ^ e := by
  obtain ⟨k, hk, hone⟩ := exists_one_eq
  rw [hsteps, hone, he, show (1074 : Int) = k by omega, zpow_sub₀ two_ne_zero, zpow_natCast,
    zpow_natCast, Nat.cast_mul, Nat.cast_pow, Nat.cast_pow, Nat.cast_ofNat, mul_div_assoc]

/-- The steps of a double, split into a mantissa and a power of two, give its value. -/
theorem value_eq (h : v.isNaN = false) {m j : Nat} {e : Int}
    (hsteps : steps (number v) = m * 2 ^ j) (he : e = j - 1074) :
    value v = (Sign.ofBitVec (@unpackSign .binary64 v.toBits.toBitVec)).apply m * 2 ^ e := by
  rw [value, rank_eq_apply h, valueOf_apply, cast_apply, mul_assoc]
  exact congrArg _ (steps_div_one hsteps he)

/-- A finite double is unpacked to a zero, or to the mantissa and the exponent of its value. -/
theorem unpack_cases (h : v.isFinite = true) :
    (∃ s, v.toModel.unpack = .zero s ∧ value v = 0) ∨
      ∃ s m e, ∃ hm : 0 < m, v.toModel.unpack = .finite s m e hm ∧
        value v = s.apply m * 2 ^ e ∧ Canonical m e := by
  have hnan := isNaN_eq_false_of_isFinite h
  have he := toNat_unpackExponent v.toBits.toBitVec
  have hm := toNat_unpackMantissa v.toBits.toBitVec
  have hnumber : number v = v.toBits.toBitVec.toNat % 2 ^ 63 := rfl
  have hlt : (@unpackMantissa .binary64 v.toBits.toBitVec).toNat < 2 ^ 52 := BitVec.isLt _
  have hbias : Format.binary64.exponentBias = 1023 := rfl
  have hfinite : (UnpackedFloat.unpack .binary64 v.toBits.toBitVec).isFinite = true := h
  change (∃ s, UnpackedFloat.unpack .binary64 v.toBits.toBitVec = _ ∧ _) ∨ ∃ s m e, ∃ hm : 0 < m,
    UnpackedFloat.unpack .binary64 v.toBits.toBitVec = _ ∧ _
  rw [isFinite_unpack_iff] at hfinite
  rw [UnpackedFloat.unpack, if_neg hfinite]
  split
  · next hexp =>
    have hzero : (@unpackExponent .binary64 v.toBits.toBitVec).toNat = 0 := by rw [hexp]; rfl
    have hsteps : steps (number v) = (@unpackMantissa .binary64 v.toBits.toBitVec).toNat * 2 ^ 0 := by
      rw [show number v = (@unpackMantissa .binary64 v.toBits.toBitVec).toNat by omega,
        steps_of_lt hlt, Nat.pow_zero, Nat.mul_one]
    have hleast : ((@unpackExponent .binary64 v.toBits.toBitVec).toNat : Int)
        - (Format.binary64.exponentBias + (52 : Nat)) + 1 = (0 : Nat) - 1074 := by omega
    have hvalue := value_eq hnan hsteps hleast
    split
    · next hmant =>
      refine .inl ⟨_, rfl, hvalue.trans ?_⟩
      rw [hmant, cast_apply]
      exact mul_eq_zero_of_left (mul_zero _) _
    · next hmant =>
      have hpos : 0 < (@unpackMantissa .binary64 v.toBits.toBitVec).toNat :=
        Nat.pos_of_ne_zero fun h ↦ hmant (BitVec.eq_of_toNat_eq h)
      exact .inr ⟨_, _, _, hpos, rfl, hvalue, hleast.ge, by omega, .inr hleast⟩
  · next hexp =>
    have hpos : (@unpackExponent .binary64 v.toBits.toBitVec).toNat ≠ 0 := fun h ↦
      hexp (BitVec.eq_of_toNat_eq h)
    -- Here the pattern leaves out the leading bit.
    have hfull := toNat_one_append (@unpackMantissa .binary64 v.toBits.toBitVec)
    obtain ⟨j, hj⟩ : ∃ j, (@unpackExponent .binary64 v.toBits.toBitVec).toNat = j + 1 :=
      Nat.exists_eq_succ_of_ne_zero hpos
    have hsteps : steps (number v)
        = (1#1 ++ @unpackMantissa .binary64 v.toBits.toBitVec).toNat * 2 ^ j := by
      rw [steps_of_ge (by omega), hfull, show number v / 2 ^ 52 - 1 = j by omega,
        show number v % 2 ^ 52 = (@unpackMantissa .binary64 v.toBits.toBitVec).toNat by omega]
    have hexponent : ((@unpackExponent .binary64 v.toBits.toBitVec).toNat : Int)
        - (Format.binary64.exponentBias + (52 : Nat)) = j - 1074 := by omega
    exact .inr ⟨_, _, _, by omega, rfl, value_eq hnan hsteps hexponent,
      hexponent.ge.trans' (by omega), by omega, .inl (by omega)⟩

theorem ofModel_pack_of_unpack {x : UnpackedFloat} (h : v.toModel.unpack = x) :
    Float.ofModel (.pack x) = v := by
  rw [← h, ofModel_pack_unpack]

/-! ## The four operations -/

theorem apply_decreaseExponent (s : Sign) (m : Nat) {e e' : Int} (h : e' ≤ e) :
    ((s.apply (decreaseExponent m e e').1 : Int) * 2 ^ e' : ℚ) = s.apply m * 2 ^ e := by
  have hexponent : ((e - e').toNat : Int) + e' = e := by omega
  rw [cast_apply, cast_apply, decreaseExponent, Nat.shiftLeft_eq, Nat.cast_mul, Nat.cast_pow,
    Nat.cast_ofNat, ← zpow_natCast, mul_assoc, mul_assoc, ← zpow_add₀ two_ne_zero, hexponent,
    mul_assoc]

theorem isNearest_add (hv : v.isFinite = true) (hw : w.isFinite = true) :
    IsNearest (v + w) (value v + value w) := by
  have hadd : v + w = Float.ofModel (.pack (UnpackedFloat.add .binary64 v.toModel.unpack
      w.toModel.unpack)) := rfl
  rcases unpack_cases hv with ⟨s, hunpack, hvalue⟩ | ⟨s, m, e, hm, hunpack, hvalue, -⟩
  · rcases unpack_cases hw with ⟨s', hunpack', hvalue'⟩ | ⟨s', m', e', hm', hunpack', hvalue', -⟩
    · rw [hadd, hunpack, hunpack', hvalue, hvalue', add_zero]
      cases s <;> cases s' <;> exact isNearest_pack_zero _
    · have hself : v + w = w := by
        rw [hadd, hunpack, hunpack']
        exact ofModel_pack_of_unpack hunpack'
      rw [hself, hvalue, zero_add]
      exact .self hw
  · rcases unpack_cases hw with ⟨s', hunpack', hvalue'⟩ | ⟨s', m', e', hm', hunpack', hvalue', -⟩
    · have hself : v + w = v := by
        rw [hadd, hunpack, hunpack']
        exact ofModel_pack_of_unpack hunpack
      rw [hself, hvalue', add_zero]
      exact .self hv
    · have hnearest := isNearest_normalize (s.apply (decreaseExponent m e (min e e')).1
        + s'.apply (decreaseExponent m' e' (min e e')).1) (min e e') .positive
      rw [Int.cast_add, add_mul, apply_decreaseExponent s m (min_le_left _ _),
        apply_decreaseExponent s' m' (min_le_right _ _), ← hvalue, ← hvalue'] at hnearest
      rw [hadd, hunpack, hunpack']
      exact hnearest

/-- Packed with the other sign, a mantissa and an exponent give the opposite rank. -/
theorem exists_rank_pack {m : Nat} {e : Int} (h : Canonical m e) (hm : 0 < m) :
    ∃ n : Nat, ∀ s, (Float.ofModel (.pack (.finite s m e hm))).isNaN = false ∧
      rank (Float.ofModel (.pack (.finite s m e hm))) = s.apply n := by
  by_cases hfull : 2 ^ 52 ≤ m
  · obtain ⟨c, rfl⟩ : ∃ c : Nat, e = c - 1074 := ⟨(e + 1074).toNat, by have := h.least; omega⟩
    exact ⟨_, fun s ↦ rank_pack_normal hfull h.short c⟩
  · obtain rfl := h.full.resolve_left hfull
    exact ⟨_, fun s ↦ rank_pack_subnormal (not_le.mp hfull)⟩

theorem isNearest_sub (hv : v.isFinite = true) (hw : w.isFinite = true) :
    IsNearest (v - w) (value v - value w) := by
  have hsub : v - w = Float.ofModel (.pack (UnpackedFloat.sub .binary64 v.toModel.unpack
      w.toModel.unpack)) := rfl
  rcases unpack_cases hv with ⟨s, hunpack, hvalue⟩ | ⟨s, m, e, hm, hunpack, hvalue, -⟩
  · rcases unpack_cases hw with ⟨s', hunpack', hvalue'⟩ | ⟨s', m', e', hm', hunpack', -, hroom⟩
    · rw [hsub, hunpack, hunpack', hvalue, hvalue', sub_zero]
      cases s <;> cases s' <;> exact isNearest_pack_zero _
    · obtain ⟨n, hn⟩ := exists_rank_pack hroom hm'
      have hrank := (hn s').2
      rw [ofModel_pack_of_unpack hunpack', (IsNearest.self hw).rank] at hrank
      rw [hsub, hunpack, hunpack', hvalue, zero_sub]
      refine ⟨(hn (-s')).1, (hn (-s')).2.trans ?_⟩
      rw [rankOf_neg, hrank]
      cases s'
      · exact (Int.neg_neg _).symm
      · rfl
  · rcases unpack_cases hw with ⟨s', hunpack', hvalue'⟩ | ⟨s', m', e', hm', hunpack', hvalue', -⟩
    · have hself : v - w = v := by
        rw [hsub, hunpack, hunpack']
        exact ofModel_pack_of_unpack hunpack
      rw [hself, hvalue', sub_zero]
      exact .self hv
    · have hnearest := isNearest_normalize (s.apply (decreaseExponent m e (min e e')).1
        - s'.apply (decreaseExponent m' e' (min e e')).1) (min e e') .positive
      rw [Int.cast_sub, sub_mul, apply_decreaseExponent s m (min_le_left _ _),
        apply_decreaseExponent s' m' (min_le_right _ _), ← hvalue, ← hvalue'] at hnearest
      rw [hsub, hunpack, hunpack']
      exact hnearest

theorem apply_mul (s s' : Sign) : (s * s').apply 1 = s.apply 1 * s'.apply 1 := by
  cases s <;> cases s' <;> rfl

theorem isNearest_mul (hv : v.isFinite = true) (hw : w.isFinite = true) :
    IsNearest (v * w) (value v * value w) := by
  have hmul : v * w = Float.ofModel (.pack (UnpackedFloat.mul .binary64 v.toModel.unpack
      w.toModel.unpack)) := rfl
  rcases unpack_cases hv with ⟨s, hunpack, hvalue⟩ | ⟨s, m, e, hm, hunpack, hvalue, hroom⟩
  · rw [hmul, hunpack, hvalue, zero_mul]
    rcases unpack_cases hw with ⟨s', hunpack', -⟩ | ⟨s', m', e', hm', hunpack', -, -⟩
    · rw [hunpack']
      exact isNearest_pack_zero (s * s')
    · rw [hunpack']
      exact isNearest_pack_zero (s * s')
  · rcases unpack_cases hw with ⟨s', hunpack', hvalue'⟩ | ⟨s', m', e', hm', hunpack', hvalue', hroom'⟩
    · rw [hmul, hunpack, hunpack', hvalue', mul_zero]
      exact isNearest_pack_zero (s * s')
    · have hbits : e + e' ≤ Format.binary64.targetExponent (totalExponent (m * m') (e + e')) := by
        rw [targetExponent_eq, totalExponent]
        by_cases hfull : 2 ^ 52 ≤ m * m'
        · have hlog := (Nat.le_log2 (Nat.mul_pos hm hm').ne').mpr hfull
          omega
        · have hshort := hroom.full.resolve_left fun h ↦
            hfull (h.trans (Nat.le_mul_of_pos_right m hm'))
          have hshort' := hroom'.full.resolve_left fun h ↦
            hfull (h.trans (Nat.le_mul_of_pos_left m' hm))
          omega
      have hnearest := isNearest_roundWithAccuracy (s * s') Nat.one_pos (.of_exact (m * m')) hbits
      have hproduct : (((s * s').apply 1 : Int) * ((m * m' : Nat) / (1 : Nat) * 2 ^ (e + e')) : ℚ)
          = value v * value w := by
        rw [apply_mul, Int.cast_mul, Nat.cast_one, div_one, Nat.cast_mul, zpow_add₀ two_ne_zero,
          hvalue, hvalue', cast_apply, cast_apply s' m']
        ring
      rw [hproduct] at hnearest
      rw [hmul, hunpack, hunpack']
      exact hnearest

theorem apply_div (s s' : Sign) : (s / s').apply 1 = s.apply 1 * s'.apply 1 := by
  cases s <;> cases s' <;> rfl

/-- The exponent with which mantissas are divided: low enough for 53 bits of the quotient. -/
def quotientExponent (m : Nat) (e : Int) (m' : Nat) (e' : Int) : Int :=
  min (e - e') (Format.binary64.targetExponent (totalExponent m e - totalExponent m' e'))

theorem quotientExponent_le {m m' n : Nat} {e e' : Int} (hm : 0 < m) (hm' : 0 < m')
    (hn : (e - e' - quotientExponent m e m' e').toNat = n) :
    quotientExponent m e m' e' ≤ Format.binary64.targetExponent
      (totalExponent (m * 2 ^ n / m') (quotientExponent m e m' e')) := by
  rw [targetExponent_eq, totalExponent]
  by_cases hleast : quotientExponent m e m' e' ≤ -1074
  · omega
  · -- The bits that the divisor takes are made up for by the shift.
    rw [quotientExponent, targetExponent_eq, totalExponent, totalExponent] at hn hleast
    have hquotient : 2 ^ 52 ≤ m * 2 ^ n / m' := by
      rw [Nat.le_div_iff_mul_le hm']
      calc 2 ^ 52 * m' ≤ 2 ^ 52 * 2 ^ (m'.log2 + 1) :=
            Nat.mul_le_mul_left _ Nat.lt_log2_self.le
        _ = 2 ^ (m'.log2 + 53) := by rw [← Nat.pow_add]; congr 1; omega
        _ ≤ 2 ^ (m.log2 + n) := Nat.pow_le_pow_right Nat.two_pos (by omega)
        _ = 2 ^ m.log2 * 2 ^ n := Nat.pow_add 2 _ _
        _ ≤ m * 2 ^ n := Nat.mul_le_mul_right _ (Nat.log2_self_le hm.ne')
    have hlog := (Nat.le_log2 (by omega)).mpr hquotient
    omega

theorem isNearest_div (hv : v.isFinite = true) (hw : w.isFinite = true) (hzero : value w ≠ 0) :
    IsNearest (v / w) (value v / value w) := by
  have hdiv : v / w = Float.ofModel (.pack (UnpackedFloat.div .binary64 v.toModel.unpack
      w.toModel.unpack)) := rfl
  rcases unpack_cases hw with ⟨s', -, hvalue'⟩ | ⟨s', m', e', hm', hunpack', hvalue', -⟩
  · exact absurd hvalue' hzero
  rcases unpack_cases hv with ⟨s, hunpack, hvalue⟩ | ⟨s, m, e, hm, hunpack, hvalue, -⟩
  · rw [hdiv, hunpack, hunpack', hvalue, zero_div]
    exact isNearest_pack_zero (s / s')
  · obtain ⟨n, hn⟩ : ∃ n, (e - e' - quotientExponent m e m' e').toNat = n := ⟨_, rfl⟩
    have hshift : UnpackedFloat.div .binary64 (.finite s m e hm) (.finite s' m' e' hm')
        = roundWithAccuracy .binary64 (s / s') (m * 2 ^ n / m') (quotientExponent m e m' e')
          (accuracyOfFraction (m * 2 ^ n % m') m') := by
      rw [← Nat.shiftLeft_eq, ← hn]
      rfl
    have hnearest := isNearest_roundWithAccuracy (s / s') hm' (.of_fraction hm' (m * 2 ^ n))
      (quotientExponent_le hm hm' hn)
    have hquotient : (((s / s').apply 1 : Int) * ((m * 2 ^ n : Nat) / m'
        * 2 ^ quotientExponent m e m' e') : ℚ) = value v / value w := by
      have hexponent : e = n + quotientExponent m e m' e' + e' := by
        rw [quotientExponent] at hn ⊢
        omega
      have hpow : (2 : ℚ) ^ e = 2 ^ n * 2 ^ quotientExponent m e m' e' * 2 ^ e' := by
        conv_lhs => rw [hexponent]
        rw [zpow_add₀ two_ne_zero, zpow_add₀ two_ne_zero, zpow_natCast]
      have hunit : ((s'.apply 1 : Int) * (s'.apply 1 : Int) : ℚ) = 1 := by
        cases s' <;> norm_num [Sign.apply]
      have hm₀ : (m' : ℚ) ≠ 0 := Nat.cast_ne_zero.mpr hm'.ne'
      rw [hvalue'] at hzero
      rw [hvalue, hvalue', eq_div_iff hzero, apply_div, cast_apply s' m', cast_apply s m, hpow,
        Int.cast_mul, Nat.cast_mul, Nat.cast_pow, Nat.cast_ofNat]
      field_simp
      linear_combination ((s.apply 1 : Int) : ℚ) * hunit
    rw [hquotient] at hnearest
    rw [hdiv, hunpack, hunpack', hshift]
    exact hnearest

/-! ## Natural numbers as doubles -/

/-- The double made from a natural number is the one nearest to it. -/
theorem isNearest_ofInt (n : Nat) : IsNearest (ofInt n) n := by
  have hle : nearest n 1 ≤ infinity := nearest_le_infinity _ _
  have hnumber : Decimal.toNumber ⟨n, 0⟩ = nearest n 1 := by
    rw [Decimal.toNumber_eq_nearest, Decimal.num, Decimal.den]
    simp
  have hfloat : ofInt n = Float.ofBits (nearest n 1).toUInt64 := by
    rw [ofInt, Decimal.toSignedFloat, Decimal.toFloat, Int.natAbs_natCast, hnumber,
      if_neg (by simp)]
  have hunsigned := unsigned_ofBits hle
  rw [hfloat]
  refine ⟨isNaN_eq_false hunsigned, ?_⟩
  rw [rank, isNegative_eq_false hunsigned, number_eq hunsigned, toNat_toBits_ofBits hle]
  have hrank := rankOf_natCast_div n Nat.one_pos
  rw [Nat.cast_one, div_one] at hrank
  exact hrank.symm

theorem lt_overflow {n : Nat} (h : n < 2 ^ 53) : n < overflow := by
  obtain ⟨k, hlargest⟩ : ∃ k, largest = (2 ^ 53 - 1) * 2 ^ k := ⟨971, rfl⟩
  have hle : n ≤ largest := by
    rw [hlargest]
    exact (show n ≤ 2 ^ 53 - 1 by omega).trans (Nat.le_mul_of_pos_right _ (Nat.two_pow_pos k))
  have hoverflow := largest_succ_lt_overflow
  omega

/-- Numbers of up to 53 bits lose none of them. -/
theorem steps_nearest_one {n : Nat} (h : n < 2 ^ 53) : steps (nearest n 1) = n * one := by
  obtain ⟨e, he, hone⟩ := exists_one_eq
  have hfinite : nearest n 1 < infinity := (nearest_le_infinity n 1).lt_of_ne
    ((nearest_one_eq_infinity_iff n).not.mpr (not_le.mpr (lt_overflow h)))
  rw [steps_nearest hfinite]
  rcases n.eq_zero_or_pos with rfl | hpos
  · rw [kept, Nat.zero_mul, divRound_of_two_mul_lt (Nat.mul_pos Nat.one_pos (Nat.two_pow_pos _)),
      Nat.zero_mul]
  have hlog : n.log2 < 53 := (Nat.log2_lt hpos.ne').mpr h
  obtain ⟨j, hj⟩ : ∃ j, j + n.log2 = 52 := ⟨52 - n.log2, by omega⟩
  have hcut : j + cut n 1 = e := by
    rw [cut, Nat.div_one, hone, log2_mul_two_pow hpos]
    omega
  have hscale : n * one = n * 2 ^ j * 2 ^ cut n 1 := by
    rw [hone, Nat.mul_assoc, ← Nat.pow_add, hcut]
  rw [kept, hscale, Nat.one_mul, divRound_mul_self (Nat.two_pow_pos _)]

theorem isFinite_ofInt {n : Nat} (h : n < 2 ^ 53) : (ofInt n).isFinite = true :=
  (isFinite_ofInt_iff n).mpr (lt_overflow h)

theorem value_ofInt {n : Nat} (h : n < 2 ^ 53) : value (ofInt n) = n := by
  have hrank := (isNearest_ofInt n).rank
  have hnearest := rankOf_natCast_div n Nat.one_pos
  rw [Nat.cast_one, div_one] at hnearest
  rw [value, hrank, hnearest, valueOf_natCast, steps_nearest_one h, Nat.cast_mul,
    mul_div_cancel_right₀ _ (Nat.cast_ne_zero.mpr one_pos.ne')]

theorem one_le_value_ofInt {n : Nat} (hn : 0 < n) (h : (ofInt n).isFinite = true) :
    1 ≤ value (ofInt n) := by
  have hone : value (ofInt (1 : Nat)) = 1 := (value_ofInt (by decide)).trans Nat.cast_one
  rw [← hone]
  exact (isNearest_ofInt 1).value_le (isNearest_ofInt n) (isFinite_ofInt (by decide)) h
    (Nat.cast_le.mpr hn)

theorem isInf_ofInt {n : Nat} (h : (ofInt n).isFinite = false) : (ofInt n).isInf = true := by
  by_contra hinf
  rw [isFinite_of_not (isNearest_ofInt n).isNaN (Bool.eq_false_iff.mpr hinf)] at h
  cases h

end Binary64

end ExprSampler
