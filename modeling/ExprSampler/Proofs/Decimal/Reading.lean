import ExprSampler.Decimal.Shortest
import ExprSampler.Proofs.Decimal.Nearest

/-!
# Reading decimals as doubles

The double nearest to a decimal depends on its value alone, not on how many zeros it is written
with; that decimals far out are decided on without rounding changes nothing. The exact decimal of a
finite double reads back as that double, and so does the shortest one, which is only accepted after
it has been read back.
-/

namespace ExprSampler

/-! ## How many digits a number has -/

theorem lt_pow_digitCount (n : Nat) : n < 10 ^ digitCount n :=
  (Nat.length_toDigits_le_iff (by decide) Nat.length_toDigits_pos).mp (Nat.le_refl _)

theorem pow_digitCount_le {n : Nat} (h : n ≠ 0) : 10 ^ (digitCount n - 1) ≤ n := by
  by_cases hone : digitCount n - 1 = 0
  · rw [hone]
    exact Nat.pos_of_ne_zero h
  · refine Nat.le_of_not_lt fun hlt ↦ ?_
    have hshort : digitCount n ≤ digitCount n - 1 :=
      (Nat.length_toDigits_le_iff (by decide) (Nat.pos_of_ne_zero hone)).mpr hlt
    omega

namespace Decimal

open Binary64

/-! ## Decimals as quotients -/

/-- The numerator of a decimal as a quotient. -/
def num (d : Decimal) : Nat :=
  d.digits * 10 ^ d.exponent.toNat

/-- The denominator of a decimal as a quotient. -/
def den (d : Decimal) : Nat :=
  10 ^ (-d.exponent).toNat

theorem den_pos (d : Decimal) : 0 < d.den :=
  Nat.pow_pos (by decide)

/-- A decimal below `10 ^ -330` is below half a step. -/
theorem two_mul_num_lt {d : Decimal} (h : d.magnitude < -330) : 2 * (d.num * one) < d.den := by
  obtain ⟨k, hk, hone⟩ : ∃ k, k = 330 ∧ 2 * one ≤ 10 ^ k := ⟨_, rfl, by decide +kernel⟩
  have hexponent : digitCount d.digits + d.exponent.toNat + k ≤ (-d.exponent).toNat := by
    rw [magnitude] at h
    omega
  calc 2 * (d.num * one) = d.digits * 10 ^ d.exponent.toNat * (2 * one) := by
        rw [Nat.mul_left_comm, num]
    _ < 10 ^ digitCount d.digits * 10 ^ d.exponent.toNat * 10 ^ k := by
        refine Nat.mul_lt_mul_of_lt_of_le ?_ hone (Nat.pow_pos (by decide))
        exact Nat.mul_lt_mul_of_pos_right (lt_pow_digitCount _) (Nat.pow_pos (by decide))
    _ ≤ d.den := by
        rw [← Nat.pow_add, ← Nat.pow_add]
        exact Nat.pow_le_pow_right (by decide) hexponent

/-- A decimal from `10 ^ 310` upwards is past every finite double. -/
theorem mul_den_le_num {d : Decimal} (hzero : d.digits ≠ 0) (h : 310 ≤ d.magnitude) :
    2 ^ 1024 * d.den ≤ d.num := by
  have hexponent : 310 + (-d.exponent).toNat ≤ digitCount d.digits - 1 + d.exponent.toNat := by
    rw [magnitude] at h
    omega
  calc 2 ^ 1024 * d.den ≤ 10 ^ 310 * d.den := Nat.mul_le_mul_right _ (by decide +kernel)
    _ ≤ 10 ^ (digitCount d.digits - 1) * 10 ^ d.exponent.toNat := by
        rw [den, ← Nat.pow_add, ← Nat.pow_add]
        exact Nat.pow_le_pow_right (by decide) hexponent
    _ ≤ d.num := Nat.mul_le_mul_right _ (pow_digitCount_le hzero)

/-- Deciding on decimals far out by their magnitude changes nothing. -/
theorem toNumber_eq_nearest (d : Decimal) : d.toNumber = nearest d.num d.den := by
  have hrun : d.toNumber = if d.digits = 0 ∨ d.magnitude < -330 then 0
      else if 310 ≤ d.magnitude then infinity else nearest d.num d.den := rfl
  rw [hrun]
  by_cases hzero : d.digits = 0
  · rw [if_pos (.inl hzero), nearest_of_lt]
    simp [num, hzero, den_pos]
  by_cases hsmall : d.magnitude < -330
  · rw [if_pos (.inr hsmall), nearest_of_lt (two_mul_num_lt hsmall)]
  rw [if_neg (not_or.mpr ⟨hzero, hsmall⟩)]
  by_cases hlarge : 310 ≤ d.magnitude
  · rw [if_pos hlarge, nearest_of_ge d.den_pos (mul_den_le_num hzero hlarge)]
  · rw [if_neg hlarge]

theorem toNumber_le_infinity (d : Decimal) : d.toNumber ≤ infinity := by
  rw [toNumber_eq_nearest]
  exact nearest_le_infinity _ _

theorem toNumber_congr {d d' : Decimal} (h : d.num * d'.den = d'.num * d.den) :
    d.toNumber = d'.toNumber := by
  rw [toNumber_eq_nearest, toNumber_eq_nearest]
  exact nearest_congr d.den_pos d'.den_pos h

/-- Zeros at the end count for the exponent. -/
theorem toNumber_shift (digits zeros : Nat) (exponent : Int) :
    toNumber ⟨digits * 10 ^ zeros, exponent⟩ = toNumber ⟨digits, exponent + zeros⟩ := by
  have hexponent : zeros + exponent.toNat + (-(exponent + zeros)).toNat
      = (exponent + zeros).toNat + (-exponent).toNat := by omega
  refine toNumber_congr ?_
  rw [num, num, den, den, Nat.mul_assoc, Nat.mul_assoc, Nat.mul_assoc, ← Nat.pow_add,
    ← Nat.pow_add, ← Nat.pow_add, ← Nat.add_assoc, hexponent]

end Decimal

namespace Binary64

/-! ## Decimals of doubles -/

/-- What is left of the steps in one by a common divisor is a power of two. -/
theorem one_div_of_dvd {k : Nat} (h : k ∣ one) : one / k = 2 ^ (one / k).log2 := by
  obtain ⟨e, -, he⟩ := exists_one_eq
  have hdvd : one / k ∣ 2 ^ e := he ▸ Nat.div_dvd_of_dvd h
  obtain ⟨places, -, hplaces⟩ := (Nat.dvd_prime_pow Nat.prime_two).mp hdvd
  rw [hplaces, Nat.log2_two_pow]

theorem toNumber_toDecimal {n : Nat} (h : n < infinity) : (toDecimal n).toNumber = n := by
  have hone : Nat.gcd (steps n) one ∣ one := Nat.gcd_dvd_right _ _
  have hsteps : Nat.gcd (steps n) one ∣ steps n := Nat.gcd_dvd_left _ _
  have hplaces := one_div_of_dvd hone
  rw [toDecimal]
  generalize Nat.gcd (steps n) one = common at hone hsteps hplaces ⊢
  generalize (one / common).log2 = places at hplaces ⊢
  -- Both sides are the size of the double over one, the left one in lowest terms.
  have hvalue : (steps n / common * 5 ^ places) * one = steps n * 10 ^ places :=
    calc steps n / common * 5 ^ places * one
        = steps n / common * 5 ^ places * (common * 2 ^ places) := by
          rw [← hplaces, Nat.mul_div_cancel' hone]
      _ = steps n / common * common * (2 * 5) ^ places := by
          rw [Nat.mul_pow, Nat.mul_mul_mul_comm, Nat.mul_comm (5 ^ places)]
      _ = steps n * 10 ^ places := by rw [Nat.div_mul_cancel hsteps]
  have hnum : (⟨steps n / common * 5 ^ places, -places⟩ : Decimal).num
      = steps n / common * 5 ^ places := by
    rw [Decimal.num, Int.toNat_neg_natCast, Nat.pow_zero, Nat.mul_one]
  have hden : (⟨steps n / common * 5 ^ places, -places⟩ : Decimal).den = 10 ^ places := by
    rw [Decimal.den, Int.neg_neg, Int.toNat_natCast]
  refine (Decimal.toNumber_eq_nearest _).trans ?_
  refine (nearest_congr (Decimal.den_pos _) one_pos ?_).trans (nearest_steps h)
  exact (congrArg (· * one) hnum).trans (hvalue.trans (congrArg (steps n * ·) hden.symm))

theorem toNumber_candidate {n size count : Nat} {exact d : Decimal} (hexact : exact.toNumber = n)
    (h : candidate n exact size count = some d) : d.toNumber = n := by
  rw [candidate] at h
  split at h
  · obtain rfl := Option.some.inj h
    exact hexact
  split at h
  · next hbelow =>
    split at h
    · next habove =>
      obtain rfl := Option.some.inj h
      rcases divRound_eq_or exact.digits (Nat.pow 10 (size - count)) with hround | hround
      · rw [hround, hbelow]
      · rw [hround, habove]
    · obtain rfl := Option.some.inj h
      exact hbelow
  split at h
  · next habove =>
    obtain rfl := Option.some.inj h
    exact habove
  · cases h

/-- The shortest decimal of a finite double reads back. -/
theorem toNumber_shortest {n : Nat} (h : n < infinity) : (shortest n).toNumber = n := by
  have hexact := toNumber_toDecimal h
  rw [shortest]
  cases hfound : (List.range 17).findSome? fun i ↦
      candidate n (toDecimal n) (digitCount (toDecimal n).digits) (i + 1) with
  | none => exact hexact
  | some d =>
    obtain ⟨i, -, hi⟩ := List.exists_of_findSome?_eq_some hfound
    exact toNumber_candidate hexact hi

end Binary64

end ExprSampler
