import ExprSampler.Proofs.Binary64.Signs

/-!
# Doubles in order of size

With their signs the numbers of doubles are ranks: doubles stand in the order of their ranks, and
each finite one has an exact value. A double is nearest to a number if its rank is the one that the
number is rounded to. Nothing more has to be known of an operation on doubles than the number whose
nearest double it gives: larger numbers have nearest doubles of larger rank, finite doubles are
nearest to their own values, and the value of the nearest double is hardly off.
-/

namespace ExprSampler

namespace Binary64

/-! ## Ranks and values -/

/-- The number of a double with its sign. -/
def rank (v : Float) : Int :=
  if isNegative v then -(number v : Int) else number v

/-- The rank of the double nearest to a number. -/
def rankOf (q : ℚ) : Int := q.num.sign * nearest q.num.natAbs q.den

/-- The exact value of the finite double of the given rank. -/
def valueOf (r : Int) : ℚ := r.sign * steps r.natAbs / one

/-- The exact value of a finite double. -/
def value (v : Float) : ℚ := valueOf (rank v)

/-! ## Rounding to a rank -/

theorem rankOf_zero : rankOf 0 = 0 := by
  rw [rankOf, Rat.num_zero, Int.sign_zero, Int.zero_mul]

theorem rankOf_neg (q : ℚ) : rankOf (-q) = -rankOf q := by
  rw [rankOf, rankOf, Rat.neg_num, Rat.neg_den, Int.sign_neg, Int.natAbs_neg, Int.neg_mul]

theorem nearest_zero {den : Nat} (hden : 0 < den) : nearest 0 den = 0 :=
  nearest_of_lt (by rwa [Nat.zero_mul])

theorem natAbs_rankOf (q : ℚ) : (rankOf q).natAbs = nearest q.num.natAbs q.den := by
  rw [rankOf, Int.natAbs_mul, Int.natAbs_natCast, Int.natAbs_sign]
  split
  · next hzero => rw [hzero, Int.natAbs_zero, nearest_zero (Rat.den_pos q), Nat.mul_zero]
  · exact Nat.one_mul _

theorem rankOf_of_nonneg {q : ℚ} (hq : 0 ≤ q) : rankOf q = nearest q.num.natAbs q.den := by
  have hsign : 0 ≤ rankOf q :=
    Int.mul_nonneg (Int.sign_nonneg_iff.mpr (Rat.num_nonneg.mpr hq)) (Int.natCast_nonneg _)
  rw [← natAbs_rankOf, Int.natAbs_of_nonneg hsign]

theorem cast_eq_num_div_den {q : ℚ} (hq : 0 ≤ q) : (q.num.natAbs / q.den : ℚ) = q := by
  rw [Nat.cast_natAbs, abs_of_nonneg (Rat.num_nonneg.mpr hq), Rat.num_div_den]

theorem rankOf_natCast_div (n : Nat) {d : Nat} (hd : 0 < d) : rankOf (n / d) = nearest n d := by
  have hq : (0 : ℚ) ≤ n / d := by positivity
  have hcross : (n / d : ℚ).num.natAbs * d = n * (n / d : ℚ).den := by
    have h := cast_eq_num_div_den hq
    rw [div_eq_div_iff (Nat.cast_ne_zero.mpr (Rat.den_nz _)) (Nat.cast_ne_zero.mpr hd.ne')] at h
    exact_mod_cast h
  rw [rankOf_of_nonneg hq, nearest_congr (Rat.den_pos _) hd hcross]

/-- A number of larger size is not nearest to a double of smaller size. -/
theorem natAbs_rankOf_mono {q q' : ℚ} (h : |q| ≤ |q'|) :
    (rankOf q).natAbs ≤ (rankOf q').natAbs := by
  rw [natAbs_rankOf, natAbs_rankOf]
  refine nearest_mono (Rat.den_pos q) (Rat.den_pos q') ?_
  rw [Rat.abs_def, Rat.abs_def, Rat.divInt_le_divInt (mod_cast Rat.den_pos q)
    (mod_cast Rat.den_pos q')] at h
  exact_mod_cast h

theorem rankOf_mono {q q' : ℚ} (h : q ≤ q') : rankOf q ≤ rankOf q' := by
  have hmono : ∀ {q q' : ℚ}, 0 ≤ q → q ≤ q' → rankOf q ≤ rankOf q' := by
    intro q q' hq h
    have habs := natAbs_rankOf_mono (abs_le_abs_of_nonneg hq h)
    rw [natAbs_rankOf, natAbs_rankOf] at habs
    rw [rankOf_of_nonneg hq, rankOf_of_nonneg (hq.trans h)]
    exact_mod_cast habs
  by_cases hq : 0 ≤ q
  · exact hmono hq h
  by_cases hq' : 0 ≤ q'
  · have hneg := rankOf_of_nonneg (neg_nonneg.mpr (not_le.mp hq).le)
    rw [rankOf_neg] at hneg
    have hpos := rankOf_of_nonneg hq'
    omega
  · have hneg := hmono (neg_nonneg.mpr (not_le.mp hq').le) (neg_le_neg h)
    rw [rankOf_neg, rankOf_neg] at hneg
    exact Int.neg_le_neg_iff.mp hneg

theorem valueOf_natCast (n : Nat) : valueOf n = steps n / one := by
  rcases n.eq_zero_or_pos with rfl | hpos
  · rw [valueOf, Int.natAbs_natCast, steps_of_lt (Nat.two_pow_pos 52)]
    exact congrArg (· / (one : ℚ)) (mul_zero _)
  · rw [valueOf, Int.sign_natCast_of_ne_zero hpos.ne', Int.natAbs_natCast, Int.cast_one, one_mul]

theorem valueOf_natCast_nonneg (n : Nat) : 0 ≤ valueOf n := by
  rw [valueOf_natCast]
  exact div_nonneg (Nat.cast_nonneg _) (Nat.cast_nonneg _)

theorem valueOf_neg (r : Int) : valueOf (-r) = -valueOf r := by
  rw [valueOf, valueOf, Int.sign_neg, Int.natAbs_neg, Int.cast_neg, neg_mul, neg_div]

/-- A finite double is the one nearest to its own value. -/
theorem rankOf_valueOf {r : Int} (h : r.natAbs < infinity) : rankOf (valueOf r) = r := by
  have hnat : rankOf (valueOf (r.natAbs : Int)) = r.natAbs := by
    rw [valueOf_natCast, rankOf_natCast_div _ one_pos, nearest_steps h]
  rcases Int.natAbs_eq r with heq | heq
  · rw [heq]
    exact hnat
  · rw [heq, valueOf_neg, rankOf_neg, hnat]

theorem valueOf_mono {r r' : Int} (hr : r.natAbs < infinity) (hr' : r'.natAbs < infinity)
    (h : r ≤ r') : valueOf r ≤ valueOf r' := by
  by_contra hlt
  have hmono := rankOf_mono (not_le.mp hlt).le
  rw [rankOf_valueOf hr, rankOf_valueOf hr'] at hmono
  rw [Int.le_antisymm h hmono] at hlt
  exact hlt le_rfl

/-- The distance of two quotients from that of the products crosswise. -/
theorem abs_div_sub_div_le {n unit m d : Nat} (hunit : 0 < unit) (hd : 0 < d)
    (habove : 2 ^ 53 * (n * d) ≤ 2 ^ 53 * (m * unit) + (m * unit + 2 ^ 52 * d))
    (hbelow : 2 ^ 53 * (m * unit) ≤ 2 ^ 53 * (n * d) + (m * unit + 2 ^ 52 * d)) :
    |(n / unit - m / d : ℚ)| ≤ m / d / 2 ^ 53 + 1 / (2 * unit) := by
  have hunit : (0 : ℚ) < unit := Nat.cast_pos.mpr hunit
  have hd : (0 : ℚ) < d := Nat.cast_pos.mpr hd
  have hsize : (0 : ℚ) < unit * d := mul_pos hunit hd
  have hdiff : (n / unit - m / d : ℚ) = (n * d - m * unit) / (unit * d) := by
    rw [div_sub_div _ _ hunit.ne' hd.ne', mul_comm (unit : ℚ) m]
  have hbound : (m / d / 2 ^ 53 + 1 / (2 * unit) : ℚ)
      = (m * unit + 2 ^ 52 * d) / 2 ^ 53 / (unit * d) := by
    field_simp
  have habove : (2 ^ 53 * (n * d) : ℚ) ≤ 2 ^ 53 * (m * unit) + (m * unit + 2 ^ 52 * d) :=
    mod_cast habove
  have hbelow : (2 ^ 53 * (m * unit) : ℚ) ≤ 2 ^ 53 * (n * d) + (m * unit + 2 ^ 52 * d) :=
    mod_cast hbelow
  rw [hdiff, hbound, abs_div, abs_of_pos hsize, div_le_div_iff_of_pos_right hsize, abs_sub_le_iff]
  constructor <;> linarith

/-- Short of infinity, the nearest double is off by at most one part in `2 ^ 53` and half a step. -/
theorem valueOf_rankOf_near {q : ℚ} (h : (rankOf q).natAbs < infinity) :
    |valueOf (rankOf q) - q| ≤ |q| / 2 ^ 53 + 1 / (2 * one) := by
  have hnonneg : ∀ {q : ℚ}, 0 ≤ q → (rankOf q).natAbs < infinity →
      |valueOf (rankOf q) - q| ≤ |q| / 2 ^ 53 + 1 / (2 * one) := by
    intro q hq h
    rw [natAbs_rankOf] at h
    obtain ⟨habove, hbelow⟩ := steps_nearest_near (Rat.den_pos q) h
    rw [rankOf_of_nonneg hq, valueOf_natCast, abs_of_nonneg hq]
    have hnear := abs_div_sub_div_le one_pos (Rat.den_pos q) habove hbelow
    rwa [cast_eq_num_div_den hq] at hnear
  by_cases hq : 0 ≤ q
  · exact hnonneg hq h
  · have hneg := hnonneg (neg_nonneg.mpr (not_le.mp hq).le) (by rwa [rankOf_neg, Int.natAbs_neg])
    rw [rankOf_neg, valueOf_neg, abs_neg, ← neg_sub_neg, neg_neg, neg_neg, abs_sub_comm] at hneg
    exact hneg

/-! ## Nearest doubles -/

variable {v w : Float} {q r : ℚ}

theorem natAbs_rank (v : Float) : (rank v).natAbs = number v := by
  rw [rank]
  split
  · rw [Int.natAbs_neg, Int.natAbs_natCast]
  · exact Int.natAbs_natCast _

theorem isNaN_eq_false_of_number (h : number v ≤ infinity) : v.isNaN = false := by
  refine Bool.eq_false_iff.mpr fun hnan ↦ ?_
  rw [eq_notANumber hnan] at h
  exact absurd h (by decide)

theorem isFinite_iff_number_lt (h : v.isNaN = false) : v.isFinite = true ↔ number v < infinity := by
  refine ⟨number_lt_infinity, fun hlt ↦ ?_⟩
  by_contra hfinite
  rcases eq_of_not_isFinite (Bool.eq_false_iff.mpr hfinite) with rfl | rfl | rfl
  · cases h
  · exact absurd hlt (by decide)
  · exact absurd hlt (by decide)

/-- A double is the one nearest to a number. -/
structure IsNearest (v : Float) (q : ℚ) : Prop where
  isNaN : v.isNaN = false
  rank : rank v = rankOf q

namespace IsNearest

theorem self (h : v.isFinite = true) : IsNearest v (value v) where
  isNaN := isNaN_eq_false_of_isFinite h
  rank := (rankOf_valueOf (by rw [natAbs_rank]; exact number_lt_infinity h)).symm

theorem isFinite_iff (h : IsNearest v q) : v.isFinite = true ↔ (rankOf q).natAbs < infinity := by
  rw [isFinite_iff_number_lt h.isNaN, ← natAbs_rank, h.rank]

theorem isFinite_of_le (h : IsNearest v q) (hw : IsNearest w r) (hfinite : w.isFinite = true)
    (hle : |q| ≤ |r|) : v.isFinite = true := by
  rw [hw.isFinite_iff] at hfinite
  rw [h.isFinite_iff]
  exact (natAbs_rankOf_mono hle).trans_lt hfinite

/-- Up to an integer below the middle past the finite doubles, numbers are nearest to those. -/
theorem isFinite_of_lt (h : IsNearest v q) {n : Nat} (hn : n < overflow) (hle : |q| ≤ n) :
    v.isFinite = true := by
  have hnearest : (rankOf n).natAbs = nearest n 1 := by
    rw [natAbs_rankOf, Rat.num_natCast, Rat.den_natCast, Int.natAbs_natCast]
  have hlt : nearest n 1 < infinity :=
    (nearest_le_infinity n 1).lt_of_ne ((nearest_one_eq_infinity_iff n).not.mpr (not_le.mpr hn))
  rw [h.isFinite_iff]
  refine (natAbs_rankOf_mono (hle.trans (le_abs_self _))).trans_lt ?_
  rwa [hnearest]

theorem value_le (h : IsNearest v q) (hw : IsNearest w r) (hv : v.isFinite = true)
    (hw' : w.isFinite = true) (hle : q ≤ r) : value v ≤ value w := by
  refine valueOf_mono ?_ ?_ ?_
  · rw [natAbs_rank]
    exact number_lt_infinity hv
  · rw [natAbs_rank]
    exact number_lt_infinity hw'
  · rw [h.rank, hw.rank]
    exact rankOf_mono hle

/-- The value of a nearest double does not change the sign. -/
theorem value_nonneg (h : IsNearest v q) (hq : 0 ≤ q) : 0 ≤ value v := by
  rw [value, h.rank, rankOf_of_nonneg hq]
  exact valueOf_natCast_nonneg _

theorem value_nonpos (h : IsNearest v q) (hq : q ≤ 0) : value v ≤ 0 := by
  have hrank := rankOf_of_nonneg (neg_nonneg.mpr hq)
  rw [rankOf_neg] at hrank
  rw [value, h.rank, ← Int.neg_neg (rankOf q), hrank, valueOf_neg]
  exact neg_nonpos.mpr (valueOf_natCast_nonneg _)

theorem value_eq_zero (h : IsNearest v 0) : value v = 0 := by
  rw [value, h.rank, rankOf_zero]
  exact (valueOf_natCast 0).trans (by rw [steps_of_lt (Nat.two_pow_pos 52), Nat.cast_zero, zero_div])

/-- The value of a nearest double is off by at most one part in `2 ^ 53` and half a step. -/
theorem near (h : IsNearest v q) (hfinite : v.isFinite = true) :
    |value v - q| ≤ |q| / 2 ^ 53 + 1 / (2 * one) := by
  rw [value, h.rank]
  exact valueOf_rankOf_near (h.isFinite_iff.mp hfinite)

theorem abs_le (h : IsNearest v q) (hfinite : v.isFinite = true) :
    |value v| ≤ |q| + (|q| / 2 ^ 53 + 1 / (2 * one)) := by
  have hsum : value v = q + (value v - q) := by ring
  rw [hsum]
  exact (abs_add_le _ _).trans (add_le_add_right (h.near hfinite) _)

end IsNearest

/-! ## The largest finite double -/

/-- The value of the largest finite double. -/
def largest : Nat := (2 ^ 53 - 1) * 2 ^ 971

/-- It is well below the middle past it. -/
theorem largest_succ_lt_overflow : largest + 1 < overflow := by
  obtain ⟨i, j, k, hi, hj, hk, hlargest, hoverflow⟩ : ∃ i j k, i = k + 1 ∧ j = k + 54 ∧ 1 ≤ k ∧
      largest = (2 ^ 53 - 1) * 2 ^ i ∧ overflow = 2 ^ j - 2 ^ k :=
    ⟨971, 1024, 970, rfl, rfl, by decide, rfl, rfl⟩
  have hpow : 2 ^ 1 ≤ 2 ^ k := Nat.pow_le_pow_right Nat.two_pos hk
  rw [hlargest, hoverflow, hi, hj, Nat.pow_add 2 k 1, Nat.pow_add 2 k 54]
  omega

theorem steps_le {n : Nat} (h : n < infinity) : steps n ≤ largest * one := by
  obtain ⟨e, he, hone⟩ := exists_one_eq
  obtain ⟨k, hk, hlargest⟩ : ∃ k, k + e = 2045 ∧ largest = (2 ^ 53 - 1) * 2 ^ k :=
    ⟨971, by omega, rfl⟩
  have hinfinity : infinity = 2047 * 2 ^ 52 := rfl
  rw [hlargest, hone, Nat.mul_assoc, ← Nat.pow_add]
  by_cases hlt : n < 2 ^ 52
  · rw [steps_of_lt hlt]
    calc n ≤ 2 ^ 53 - 1 := by omega
      _ ≤ (2 ^ 53 - 1) * 2 ^ (k + e) := Nat.le_mul_of_pos_right _ (Nat.two_pow_pos _)
  · rw [steps_of_ge hlt]
    exact Nat.mul_le_mul (by omega) (Nat.pow_le_pow_right Nat.two_pos (by omega))

theorem abs_value_le (h : v.isFinite = true) : |value v| ≤ largest := by
  have hsteps := steps_le (number_lt_infinity h)
  have hsize : valueOf (number v) ≤ largest := by
    rw [valueOf_natCast, div_le_iff₀ (Nat.cast_pos.mpr one_pos), ← Nat.cast_mul]
    exact Nat.cast_le.mpr hsteps
  have hnonneg : 0 ≤ valueOf (number v) := valueOf_natCast_nonneg _
  rw [value, rank]
  split
  · rw [valueOf_neg, abs_neg, abs_of_nonneg hnonneg]
    exact hsize
  · rw [abs_of_nonneg hnonneg]
    exact hsize

/-! ## Half a step -/

/-- Half a step, by which small values are off, is next to nothing. -/
theorem half_step_le : (2 ^ 60 * (1 / (2 * one)) : ℚ) ≤ 1 := by
  obtain ⟨e, he, hone⟩ := exists_one_eq
  have hle : 2 ^ 60 ≤ one := by
    rw [hone]
    exact Nat.pow_le_pow_right Nat.two_pos (by omega)
  have hle : (2 ^ 60 : ℚ) ≤ one := mod_cast hle
  rw [mul_one_div, div_le_one (by linarith)]
  linarith

theorem half_step_nonneg : (0 : ℚ) ≤ 1 / (2 * one) :=
  div_nonneg zero_le_one (mul_nonneg zero_le_two (Nat.cast_nonneg _))

end Binary64

end ExprSampler
