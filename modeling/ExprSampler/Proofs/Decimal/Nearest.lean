import ExprSampler.Decimal.Binary64
import Mathlib

/-!
# The nearest double

Rounding looks only at the quotient: the same factor above and below changes nothing. So the double
nearest to a quotient can be found from any way to write it, and the quotient of the steps of a
double and the steps in one leads back to that double, nothing having been cut off.

A quotient is cut to 53 bits, or to a whole number of steps where those are coarser, before what is
left is rounded. So larger quotients have larger nearest doubles, and no quotient is further from
its nearest double than one part in `2 ^ 53` of its own size and half a step.
-/

namespace ExprSampler

/-! ## Rounded quotients -/

theorem compare_mul_left {k : Nat} (hk : 0 < k) (a b : Nat) :
    compare (k * a) (k * b) = compare a b := by
  simp only [Nat.compare_eq_ite_lt, Nat.mul_lt_mul_left hk]

theorem divRound_mul_left {k : Nat} (hk : 0 < k) (num den : Nat) :
    divRound (k * num) (k * den) = divRound num den := by
  have hcompare : compare (2 * (k * num % (k * den))) (k * den)
      = compare (2 * (num % den)) den := by
    rw [Nat.mul_mod_mul_left, Nat.mul_left_comm, compare_mul_left hk]
  rw [divRound, divRound, hcompare, Nat.mul_div_mul_left _ _ hk]

theorem divRound_mul_self {den : Nat} (hden : 0 < den) (n : Nat) : divRound (n * den) den = n := by
  have hlt : compare (2 * (n * den % den)) den = .lt := by
    rw [Nat.mul_mod_left]
    exact Nat.compare_eq_lt.mpr hden
  rw [divRound, hlt, Nat.mul_div_cancel _ hden]

/-- Rounding goes to one of the two neighbours. -/
theorem divRound_eq_or (num den : Nat) :
    divRound num den = num / den ∨ divRound num den = num / den + 1 := by
  have hparity := Nat.mod_two_eq_zero_or_one (num / den)
  rw [divRound]
  rcases compare (2 * (num % den)) den with _ | _ | _
  · exact .inl rfl
  · rcases hparity with h | h
    · exact .inl (by rw [h]; rfl)
    · exact .inr (by rw [h])
  · exact .inr rfl

/-- What lies below a rounded quotient: everything whose middle to the next number the quotient has
passed, or reached if that number is the even one. -/
theorem lt_divRound_iff {den : Nat} (hden : 0 < den) (num q : Nat) :
    q < divRound num den ↔
      (2 * q + 1) * den < 2 * num ∨ (2 * q + 1) * den = 2 * num ∧ q % 2 = 1 := by
  have hnum : den * (num / den) + num % den = num := Nat.div_add_mod num den
  have hrest : num % den < den := Nat.mod_lt num hden
  have hmiddle : (2 * q + 1) * den = 2 * (den * q) + den := by
    rw [Nat.add_mul, Nat.one_mul, Nat.mul_assoc, Nat.mul_comm q den]
  rw [hmiddle]
  rcases Nat.lt_trichotomy (num / den) q with hlt | heq | hgt
  · have hround : divRound num den ≤ q := by
      rcases divRound_eq_or num den with h | h <;> omega
    have hbelow : den * (num / den + 1) ≤ den * q := Nat.mul_le_mul_left den hlt
    rw [Nat.mul_add, Nat.mul_one] at hbelow
    exact iff_of_false (by omega) (by omega)
  · rw [heq] at hnum
    rw [divRound, heq]
    rcases hc : compare (2 * (num % den)) den with _ | _ | _
    · have := Nat.compare_eq_lt.mp hc
      exact iff_of_false (Nat.lt_irrefl q) (by omega)
    · have := Nat.compare_eq_eq.mp hc
      dsimp only
      omega
    · have := Nat.compare_eq_gt.mp hc
      exact iff_of_true (Nat.lt_succ_self q) (by omega)
  · have hround : q < divRound num den := by
      rcases divRound_eq_or num den with h | h <;> omega
    have habove : den * (q + 1) ≤ den * (num / den) := Nat.mul_le_mul_left den hgt
    rw [Nat.mul_add, Nat.mul_one] at habove
    exact iff_of_true hround (by omega)

theorem divRound_mono {num den num' den' : Nat} (hden : 0 < den) (hden' : 0 < den')
    (h : num * den' ≤ num' * den) : divRound num den ≤ divRound num' den' := by
  have hsame : ∀ a b d : Nat, 0 < d → a ≤ b → divRound a d ≤ divRound b d := by
    intro a b d hd hab
    refine Nat.le_of_not_lt fun hlt ↦ ?_
    have hbelow := (lt_divRound_iff hd a _).mp hlt
    have habove := (lt_divRound_iff hd b _).not.mp (Nat.lt_irrefl _)
    omega
  calc divRound num den = divRound (den' * num) (den' * den) := (divRound_mul_left hden' ..).symm
    _ ≤ divRound (den * num') (den * den') := by
      rw [Nat.mul_comm den' den]
      exact hsame _ _ _ (Nat.mul_pos hden hden') (by rwa [Nat.mul_comm, Nat.mul_comm den])
    _ = divRound num' den' := divRound_mul_left hden ..

theorem divRound_congr {num den num' den' : Nat} (hden : 0 < den) (hden' : 0 < den')
    (h : num * den' = num' * den) : divRound num den = divRound num' den' :=
  Nat.le_antisymm (divRound_mono hden hden' h.le) (divRound_mono hden' hden h.ge)

/-- Rounding moves a quotient by at most a half. -/
theorem divRound_near {den : Nat} (hden : 0 < den) (num : Nat) :
    2 * (divRound num den * den) ≤ 2 * num + den ∧ 2 * num ≤ 2 * (divRound num den * den) + den := by
  constructor
  · rcases hzero : divRound num den with _ | q
    · omega
    · have hbelow := (lt_divRound_iff hden num q).mp (by omega)
      rw [Nat.add_mul, Nat.mul_assoc, Nat.one_mul] at hbelow
      rw [Nat.add_mul, Nat.one_mul]
      omega
  · have habove := (lt_divRound_iff hden num _).not.mp (Nat.lt_irrefl _)
    rw [Nat.add_mul, Nat.mul_assoc, Nat.one_mul] at habove
    omega

theorem divRound_of_two_mul_lt {num den : Nat} (h : 2 * num < den) : divRound num den = 0 := by
  have hdiv : num / den = 0 := Nat.div_eq_of_lt (by omega)
  have hlt : compare (2 * (num % den)) den = .lt := by
    rw [Nat.mod_eq_of_lt (by omega)]
    exact Nat.compare_eq_lt.mpr h
  rw [divRound, hlt, hdiv]

namespace Binary64

/-- The steps in one, with the exponent named so that nothing computes the power. -/
theorem exists_one_eq : ∃ e, e = 1074 ∧ one = 2 ^ e := ⟨_, rfl, by decide +kernel⟩

theorem one_pos : 0 < one := by
  obtain ⟨e, -, hone⟩ := exists_one_eq
  rw [hone]
  exact Nat.two_pow_pos e

/-! ## Quotients -/

theorem nearest_le_infinity (num den : Nat) : nearest num den ≤ infinity :=
  Nat.min_le_left _ _

/-- The nearest double, when it is known how many bits are cut off. -/
theorem nearest_of_shift {num den s : Nat} (h : (num * one / den).log2 - 52 = s) :
    nearest num den = min infinity (s * 2 ^ 52 + divRound (num * one) (den * 2 ^ s)) := by
  rw [nearest, h]
  rfl

/-- How many bits of a quotient of steps are cut off. -/
def cut (num den : Nat) : Nat := (num * one / den).log2 - 52

/-- What is left of a quotient of steps after the cut. -/
def kept (num den : Nat) : Nat := divRound (num * one) (den * 2 ^ cut num den)

theorem nearest_eq (num den : Nat) :
    nearest num den = min infinity (cut num den * 2 ^ 52 + kept num den) :=
  nearest_of_shift rfl

theorem kept_le (num den : Nat) : kept num den ≤ 2 ^ 53 := by
  have hquotient : num * one / (den * 2 ^ cut num den) < 2 ^ 53 := by
    rw [← Nat.div_div_eq_div_mul, Nat.div_lt_iff_lt_mul (Nat.two_pow_pos _), ← Nat.pow_add]
    refine Nat.lt_log2_self.trans_le (Nat.pow_le_pow_right Nat.two_pos ?_)
    rw [cut]
    omega
  rw [kept]
  rcases divRound_eq_or (num * one) (den * 2 ^ cut num den) with h | h <;> omega

theorem le_kept {num den : Nat} (h : cut num den ≠ 0) : 2 ^ 52 ≤ kept num den := by
  have hpos : num * one / den ≠ 0 := fun hzero ↦ h (by rw [cut, hzero, Nat.log2_zero])
  have hquotient : 2 ^ 52 ≤ num * one / (den * 2 ^ cut num den) := by
    rw [← Nat.div_div_eq_div_mul, Nat.le_div_iff_mul_le (Nat.two_pow_pos _), ← Nat.pow_add]
    refine (Nat.pow_le_pow_right Nat.two_pos ?_).trans (Nat.log2_self_le hpos)
    rw [cut] at h ⊢
    omega
  rw [kept]
  rcases divRound_eq_or (num * one) (den * 2 ^ cut num den) with h | h <;> omega

theorem nearest_mul_left {k : Nat} (hk : 0 < k) (num den : Nat) :
    nearest (k * num) (k * den) = nearest num den := by
  rw [nearest_of_shift rfl, nearest_of_shift rfl, Nat.mul_assoc, Nat.mul_div_mul_left _ _ hk,
    Nat.mul_assoc, divRound_mul_left hk]

theorem nearest_congr {num den num' den' : Nat} (hden : 0 < den) (hden' : 0 < den')
    (h : num * den' = num' * den) : nearest num den = nearest num' den' :=
  calc nearest num den = nearest (den' * num) (den' * den) := (nearest_mul_left hden' num den).symm
    _ = nearest (den * num') (den * den') := by
      rw [Nat.mul_comm den' num, h, Nat.mul_comm num' den, Nat.mul_comm den' den]
    _ = nearest num' den' := nearest_mul_left hden num' den'

theorem log2_mono {n n' : Nat} (h : n ≤ n') : n.log2 ≤ n'.log2 := by
  rw [Nat.log2_eq_log_two, Nat.log2_eq_log_two]
  exact Nat.log_mono_right h

theorem nearest_mono {num den num' den' : Nat} (hden : 0 < den) (hden' : 0 < den')
    (h : num * den' ≤ num' * den) : nearest num den ≤ nearest num' den' := by
  have hsize : num * one * den' ≤ num' * one * den := by
    rw [Nat.mul_right_comm, Nat.mul_right_comm num']
    exact Nat.mul_le_mul_right one h
  have hcut : cut num den ≤ cut num' den' := by
    have hfloor : num * one / den ≤ num' * one / den' := by
      rw [Nat.le_div_iff_mul_le hden']
      refine Nat.le_of_mul_le_mul_right ?_ hden
      refine le_trans ?_ hsize
      rw [Nat.mul_right_comm]
      exact Nat.mul_le_mul_right den' (Nat.div_mul_le_self _ _)
    exact Nat.sub_le_sub_right (log2_mono hfloor) 52
  have hkept := kept_le num den
  rw [nearest_eq, nearest_eq]
  refine min_le_min_left _ ?_
  rcases hcut.eq_or_lt with heq | hlt
  · have hmono : kept num den ≤ kept num' den' := by
      rw [kept, kept, heq]
      refine divRound_mono (Nat.mul_pos hden (Nat.two_pow_pos _))
        (Nat.mul_pos hden' (Nat.two_pow_pos _)) ?_
      rw [← Nat.mul_assoc, ← Nat.mul_assoc]
      exact Nat.mul_le_mul_right _ hsize
    omega
  · have hkept' : 2 ^ 52 ≤ kept num' den' := le_kept (by omega)
    omega

theorem nearest_of_lt {num den : Nat} (h : 2 * (num * one) < den) : nearest num den = 0 := by
  have hshift : (num * one / den).log2 - 52 = 0 := by
    rw [Nat.div_eq_of_lt (by omega), Nat.log2_zero]
  rw [nearest_of_shift hshift, Nat.pow_zero, Nat.mul_one, divRound_of_two_mul_lt h, Nat.zero_mul]
  exact Nat.min_zero infinity

theorem nearest_of_ge {num den : Nat} (hden : 0 < den) (h : 2 ^ 1024 * den ≤ num) :
    nearest num den = infinity := by
  obtain ⟨e, he, hone⟩ := exists_one_eq
  obtain ⟨k, hk, hlarge⟩ : ∃ k, k = 1024 + e ∧ 2 ^ k = 2 ^ 1024 * one :=
    ⟨_, rfl, by rw [hone, pow_add]⟩
  have hsize : 2 ^ k ≤ num * one / den := by
    refine hlarge.le.trans ((Nat.le_div_iff_mul_le hden).mpr ?_)
    rw [Nat.mul_right_comm]
    exact Nat.mul_le_mul_right one h
  have hpos : num * one / den ≠ 0 := Nat.ne_of_gt (lt_of_lt_of_le (Nat.two_pow_pos k) hsize)
  have hlog : k ≤ (num * one / den).log2 := (Nat.le_log2 hpos).mpr hsize
  -- As many bits are cut off as overflow needs.
  have hcut : 2046 ≤ cut num den := by
    rw [cut]
    omega
  have hkept : 2 ^ 52 ≤ kept num den := le_kept (by omega)
  have hinfinity : infinity = 2047 * 2 ^ 52 := rfl
  rw [nearest_eq, Nat.min_eq_left]
  omega

/-! ## Steps of a double -/

theorem steps_of_lt {n : Nat} (h : n < 2 ^ 52) : steps n = n :=
  if_pos h

theorem steps_of_ge {n : Nat} (h : ¬n < 2 ^ 52) :
    steps n = (2 ^ 52 + n % 2 ^ 52) * 2 ^ (n / 2 ^ 52 - 1) :=
  if_neg h

/-- A mantissa of 53 bits, scaled, has its leading bit where the scale says. -/
theorem log2_scaled {m : Nat} (hlo : 2 ^ 52 ≤ m) (hhi : m < 2 ^ 53) (q : Nat) :
    (m * 2 ^ q).log2 = 52 + q := by
  have hpow : 0 < 2 ^ q := Nat.two_pow_pos q
  have hpos : m * 2 ^ q ≠ 0 := Nat.ne_of_gt (Nat.mul_pos (by omega) hpow)
  refine Nat.le_antisymm (Nat.le_of_lt_succ ((Nat.log2_lt hpos).mpr ?_))
    ((Nat.le_log2 hpos).mpr ?_)
  · rw [Nat.succ_eq_add_one, Nat.add_right_comm, Nat.pow_add]
    exact Nat.mul_lt_mul_of_pos_right hhi hpow
  · rw [Nat.pow_add]
    exact Nat.mul_le_mul_right _ hlo

/-- Every finite double is the one nearest to its own size. -/
theorem nearest_steps {n : Nat} (h : n < infinity) : nearest (steps n) one = n := by
  have hsize : steps n * one / one = steps n := Nat.mul_div_cancel _ one_pos
  by_cases hn : n < 2 ^ 52
  · have hshift : (steps n * one / one).log2 - 52 = 0 := by
      rw [hsize, steps_of_lt hn]
      by_cases hzero : n = 0
      · rw [hzero, Nat.log2_zero]
      · have hlog := (Nat.log2_lt hzero).mpr hn
        omega
    rw [nearest_of_shift hshift, steps_of_lt hn, Nat.pow_zero, Nat.mul_one,
      divRound_mul_self one_pos, Nat.zero_mul, Nat.zero_add]
    exact Nat.min_eq_right (Nat.le_of_lt h)
  · have hshift : (steps n * one / one).log2 - 52 = n / 2 ^ 52 - 1 := by
      rw [hsize, steps_of_ge hn, log2_scaled (by omega) (by omega)]
      omega
    have hpow : 0 < one * 2 ^ (n / 2 ^ 52 - 1) := Nat.mul_pos one_pos (Nat.two_pow_pos _)
    rw [nearest_of_shift hshift, steps_of_ge hn, Nat.mul_assoc, Nat.mul_comm (2 ^ _) one,
      divRound_mul_self hpow, Nat.min_eq_right]
    · omega
    · omega

/-- Short of infinity, the nearest double is as large as what is left of the quotient. -/
theorem steps_nearest {num den : Nat} (h : nearest num den < infinity) :
    steps (nearest num den) = kept num den * 2 ^ cut num den := by
  have hhi := kept_le num den
  rw [nearest_eq] at h ⊢
  rw [min_eq_right (by omega)]
  by_cases hlt : cut num den * 2 ^ 52 + kept num den < 2 ^ 52
  · have hzero : cut num den = 0 := by omega
    rw [steps_of_lt hlt, hzero, Nat.zero_mul, Nat.zero_add, Nat.pow_zero, Nat.mul_one]
  · have hlo : 2 ^ 52 ≤ kept num den := by
      by_cases hzero : cut num den = 0
      · omega
      · exact le_kept hzero
    rw [steps_of_ge hlt]
    rcases hhi.eq_or_lt with heq | hhi
    · rw [heq, show (cut num den * 2 ^ 52 + 2 ^ 53) % 2 ^ 52 = 0 by omega,
        show (cut num den * 2 ^ 52 + 2 ^ 53) / 2 ^ 52 - 1 = cut num den + 1 by omega, Nat.pow_succ]
      omega
    · rw [show (cut num den * 2 ^ 52 + kept num den) % 2 ^ 52 = kept num den - 2 ^ 52 by omega,
        show (cut num den * 2 ^ 52 + kept num den) / 2 ^ 52 - 1 = cut num den by omega,
        Nat.add_sub_cancel' hlo]

/-- Short of infinity, the nearest double is off by at most one part in `2 ^ 53` and half a step. -/
theorem steps_nearest_near {num den : Nat} (hden : 0 < den) (h : nearest num den < infinity) :
    2 ^ 53 * (steps (nearest num den) * den) ≤ 2 ^ 53 * (num * one) + (num * one + 2 ^ 52 * den) ∧
      2 ^ 53 * (num * one) ≤ 2 ^ 53 * (steps (nearest num den) * den)
        + (num * one + 2 ^ 52 * den) := by
  have hunit : den * 2 ^ cut num den * 2 ^ 52 ≤ num * one + 2 ^ 52 * den := by
    by_cases hcut : cut num den = 0
    · rw [hcut, Nat.pow_zero, Nat.mul_one, Nat.mul_comm]
      exact Nat.le_add_left _ _
    · have hpos : num * one / den ≠ 0 := fun hzero ↦ hcut (by rw [cut, hzero, Nat.log2_zero])
      rw [Nat.mul_assoc, ← Nat.pow_add, Nat.mul_comm]
      refine le_trans ?_ ((Nat.div_mul_le_self (num * one) den).trans (Nat.le_add_right _ _))
      refine Nat.mul_le_mul_right den (le_trans ?_ (Nat.log2_self_le hpos))
      refine Nat.pow_le_pow_right Nat.two_pos ?_
      rw [cut] at hcut ⊢
      omega
  have hnear := divRound_near (Nat.mul_pos hden (Nat.two_pow_pos (cut num den))) (num * one)
  rw [steps_nearest h, Nat.mul_assoc, Nat.mul_comm (2 ^ cut num den) den]
  rw [← kept] at hnear
  generalize kept num den * (den * 2 ^ cut num den) = k at hnear ⊢
  omega

end Binary64

end ExprSampler
