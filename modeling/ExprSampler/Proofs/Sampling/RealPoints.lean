import ExprSampler.Proofs.Sampling.Ascending

/-!
# Real sample points

The bounds of a sample run are checked one by one, but its points are computed from their distance.
If that is too large for a finite double, the first point is no number, though both bounds are
finite. If it is finite, the first point is the start, and every further one is finite as far as the
last one before the stop is. That one is computed with three roundings, of the distance, the step and
the product. Up to `2 ^ 51` points, what they add is less than the gap that is left to the stop.
-/

namespace ExprSampler

open Binary64

/-! ## Rounding errors -/

/-- What three roundings add to a distance that is first divided by the number of gaps and then
taken that often less once. The bits lost are made up for by the gap that is left out. -/
theorem product_le {n η S d s t : ℚ} (hn : 0 ≤ n) (hmany : n ≤ 2 ^ 51) (hη : 0 ≤ η)
    (hstep : 2 ^ 60 * η ≤ 1) (hS : 0 ≤ S) (hd₀ : 0 ≤ d) (hd : d ≤ S + (S / 2 ^ 53 + η))
    (hs : s ≤ d / (n + 1) + (d / (n + 1) / 2 ^ 53 + η)) :
    n * s ≤ d + 1 ∧ (t ≤ n * s + (n * s / 2 ^ 53 + η) → t ≤ S + 1) := by
  obtain ⟨a, ha⟩ : ∃ a, a = n / (n + 1) := ⟨_, rfl⟩
  have ha₀ : 0 ≤ a := by rw [ha]; positivity
  have hpos : 0 < n + 1 := by linarith
  -- The gap left out is larger than what three roundings add.
  have hroom : a * (1 + 1 / 2 ^ 51) ≤ 1 := by
    rw [ha, div_mul_eq_mul_div, div_le_one hpos]
    linarith
  have hproduct : n * s ≤ a * (1 + 1 / 2 ^ 53) * d + n * η := by
    calc n * s ≤ n * (d / (n + 1) + (d / (n + 1) / 2 ^ 53 + η)) := mul_le_mul_of_nonneg_left hs hn
      _ = a * (1 + 1 / 2 ^ 53) * d + n * η := by rw [ha]; ring
  have hrest : n * η ≤ 1 / 2 ^ 9 := by
    have : n * η ≤ 2 ^ 51 * η := mul_le_mul_of_nonneg_right hmany hη
    linarith
  have hone : a * (1 + 1 / 2 ^ 53) ≤ 1 := by linarith
  refine ⟨?_, fun ht ↦ ?_⟩
  · have : a * (1 + 1 / 2 ^ 53) * d ≤ d := mul_le_of_le_one_left hd₀ hone
    linarith
  · have hthree : a * (1 + 1 / 2 ^ 53) * (1 + 1 / 2 ^ 53) * (1 + 1 / 2 ^ 53) ≤ 1 := by
      refine le_trans ?_ hroom
      rw [mul_assoc, mul_assoc]
      exact mul_le_mul_of_nonneg_left (by norm_num) ha₀
    have htwo : a * (1 + 1 / 2 ^ 53) * (1 + 1 / 2 ^ 53) ≤ 1 := by
      refine le_trans ?_ hroom
      rw [mul_assoc]
      exact mul_le_mul_of_nonneg_left (by norm_num) ha₀
    have hdistance : a * (1 + 1 / 2 ^ 53) * d * (1 + 1 / 2 ^ 53) ≤ S + η := by
      calc a * (1 + 1 / 2 ^ 53) * d * (1 + 1 / 2 ^ 53)
          ≤ a * (1 + 1 / 2 ^ 53) * (S + (S / 2 ^ 53 + η)) * (1 + 1 / 2 ^ 53) := by gcongr
        _ = a * (1 + 1 / 2 ^ 53) * (1 + 1 / 2 ^ 53) * (1 + 1 / 2 ^ 53) * S
            + a * (1 + 1 / 2 ^ 53) * (1 + 1 / 2 ^ 53) * η := by ring
        _ ≤ 1 * S + 1 * η := by gcongr
        _ = S + η := by ring
    linarith

variable {start stop : Float}

/-- Added to the start, a double towards the stop that is hardly past it is still finite. -/
theorem isFinite_add_of_drift {v : Float} (hv : v.isFinite = true) (hstart : start.isFinite = true)
    (hstop : stop.isFinite = true) (hsize : |value v| ≤ |value stop - value start| + 1)
    (hup : 0 ≤ value stop - value start → 0 ≤ value v)
    (hdown : value stop - value start ≤ 0 → value v ≤ 0) : (v + start).isFinite = true := by
  refine (isNearest_add hv hstart).isFinite_of_lt largest_succ_lt_overflow ?_
  obtain ⟨hstart₁, hstart₂⟩ := abs_le.mp (abs_value_le hstart)
  obtain ⟨hstop₁, hstop₂⟩ := abs_le.mp (abs_value_le hstop)
  rw [Nat.cast_add, Nat.cast_one, abs_le]
  rcases le_total 0 (value stop - value start) with hsign | hsign
  · have hv := hup hsign
    rw [abs_of_nonneg hv, abs_of_nonneg hsign] at hsize
    constructor <;> linarith
  · have hv := hdown hsign
    rw [abs_of_nonpos hv, abs_of_nonpos hsign] at hsize
    constructor <;> linarith

/-- A step that is taken for zero is that of a distance next to nothing. -/
theorem abs_le_of_step_eq_zero {v : Float} {d n : ℚ} (hn : 0 < n) (hmany : n ≤ 2 ^ 51)
    (hv : IsNearest v (d / n)) (hzero : (v == 0.0) = true) : |d| ≤ 1 / 4 := by
  have hzero : IsZero v := by
    rcases eq_zero hzero with rfl | rfl
    · exact ⟨.positive, rfl⟩
    · exact ⟨.negative, rfl⟩
  have hnear := hv.near hzero.isFinite
  rw [hzero.value, zero_sub, abs_neg, abs_div, abs_of_pos hn, div_le_iff₀ hn] at hnear
  have hdivide : |d| / n / 2 ^ 53 * n = |d| / 2 ^ 53 := by field_simp
  have hrest : 1 / (2 * one) * n ≤ 1 / (2 * one) * 2 ^ 51 :=
    mul_le_mul_of_nonneg_left hmany half_step_nonneg
  rw [add_mul, hdivide] at hnear
  linarith [half_step_le]

theorem isFinite_add_of_step {n : Nat} {step : Float} (hmany : n + 1 ≤ 2 ^ 51)
    (hstart : start.isFinite = true) (hstop : stop.isFinite = true)
    (hdelta : (stop - start).isFinite = true) (hstep : step.isFinite = true)
    (hnearest : IsNearest step (value (stop - start) / (n + 1))) :
    (ofInt n * step + start).isFinite = true := by
  have hdistance := isNearest_sub hstop hstart
  have hn : (0 : ℚ) ≤ n := Nat.cast_nonneg n
  have hmany' : (n + 1 : ℚ) ≤ 2 ^ 51 := mod_cast hmany
  have hproduct := isNearest_mul (isFinite_ofInt (n := n) (by omega)) hstep
  rw [value_ofInt (by omega)] at hproduct
  have hs := hnearest.abs_le hstep
  rw [abs_div, abs_of_pos (by positivity : (0 : ℚ) < n + 1)] at hs
  obtain ⟨hle, hdrift⟩ := product_le (t := |value (ofInt n * step)|) hn (by linarith)
    half_step_nonneg half_step_le (abs_nonneg _) (abs_nonneg _) (hdistance.abs_le hdelta) hs
  have habs : |n * value step| = n * |value step| := by rw [abs_mul, Nat.abs_cast]
  have hfinite : (ofInt n * step).isFinite = true := by
    refine hproduct.isFinite_of_lt largest_succ_lt_overflow ?_
    rw [habs, Nat.cast_add, Nat.cast_one]
    linarith [abs_value_le hdelta]
  have hsize := hproduct.abs_le hfinite
  rw [habs] at hsize
  refine isFinite_add_of_drift hfinite hstart hstop (hdrift hsize) (fun h ↦ ?_) fun h ↦ ?_
  · have hquotient := div_nonneg (hdistance.value_nonneg h) (by positivity : (0 : ℚ) ≤ n + 1)
    exact hproduct.value_nonneg (mul_nonneg hn (hnearest.value_nonneg hquotient))
  · have hquotient := div_nonpos_of_nonpos_of_nonneg (hdistance.value_nonpos h)
      (by positivity : (0 : ℚ) ≤ n + 1)
    exact hproduct.value_nonpos
      (mul_nonpos_of_nonneg_of_nonpos hn (hnearest.value_nonpos hquotient))

/-- A share of a distance next to nothing leads to a finite double. -/
theorem isFinite_add_of_share {share : Float} {q : ℚ} (hstart : start.isFinite = true)
    (hstop : stop.isFinite = true) (hdelta : (stop - start).isFinite = true) (hq : 0 ≤ q)
    (hle : q ≤ 1) (hnearest : IsNearest share q) (hsmall : |value (stop - start)| ≤ 1 / 4) :
    (share * (stop - start) + start).isFinite = true := by
  have hdistance := isNearest_sub hstop hstart
  have hshare : share.isFinite = true := by
    refine hnearest.isFinite_of_lt (n := 1) (lt_overflow (by decide)) ?_
    rwa [Nat.cast_one, abs_of_nonneg hq]
  have htwo : |value share| ≤ 2 := by
    have hbound := hnearest.abs_le hshare
    rw [abs_of_nonneg hq] at hbound
    linarith [half_step_le, half_step_nonneg]
  have hproduct := isNearest_mul hshare hdelta
  have hsize : |value share * value (stop - start)| ≤ 2 * (1 / 4) := by
    rw [abs_mul]
    exact mul_le_mul htwo hsmall (abs_nonneg _) zero_le_two
  have hfinite : (share * (stop - start)).isFinite = true := by
    refine hproduct.isFinite_of_lt (n := 1) (lt_overflow (by decide)) ?_
    rw [Nat.cast_one]
    linarith
  have hbound := hproduct.abs_le hfinite
  refine isFinite_add_of_drift hfinite hstart hstop ?_ (fun h ↦ ?_) fun h ↦ ?_
  · linarith [half_step_le, half_step_nonneg, abs_nonneg (value stop - value start)]
  · exact hproduct.value_nonneg
      (mul_nonneg (hnearest.value_nonneg hq) (hdistance.value_nonneg h))
  · exact hproduct.value_nonpos
      (mul_nonpos_of_nonneg_of_nonpos (hnearest.value_nonneg hq) (hdistance.value_nonpos h))

/-- Up to `2 ^ 51` gaps, the last point but one is finite if the distance is. -/
theorem isFinite_before_last {n : Nat} (hmany : n + 1 ≤ 2 ^ 51) (hstart : start.isFinite = true)
    (hstop : stop.isFinite = true) (hdelta : (stop - start).isFinite = true) :
    (pointAt start stop (n + 1) n).isFinite = true := by
  have hpos : (0 : ℚ) < n + 1 := by positivity
  have hgaps : value (ofInt (n + 1 : Nat)) = n + 1 :=
    (value_ofInt (by omega)).trans (Nat.cast_succ n)
  have hfinite : (ofInt (n + 1 : Nat)).isFinite = true := isFinite_ofInt (by omega)
  have hne : value (ofInt (n + 1 : Nat)) ≠ 0 := by
    rw [hgaps]
    exact hpos.ne'
  have hstep := isNearest_div hdelta hfinite hne
  have hshare := isNearest_div (isFinite_ofInt (n := n) (by omega)) hfinite hne
  rw [hgaps] at hstep
  rw [hgaps, value_ofInt (by omega)] at hshare
  rw [pointAt_of_lt (Nat.lt_succ_self n), multiple, stride]
  by_cases hzero : ((stop - start) / ofInt (n + 1 : Nat) == 0.0) = true
  · have hsmall := abs_le_of_step_eq_zero hpos (mod_cast hmany) hstep hzero
    rw [if_pos hzero, if_pos hzero]
    refine isFinite_add_of_share hstart hstop hdelta (div_nonneg (Nat.cast_nonneg n) hpos.le) ?_
      hshare hsmall
    rw [div_le_one hpos]
    linarith
  · rw [if_neg hzero, if_neg hzero]
    exact isFinite_add_of_step hmany hstart hstop hdelta (isFinite_step n.succ_pos hdelta) hstep

/-! ## All points -/

/-- The points from the start on, with the stop put behind them. -/
theorem evenlySpaced_eq (start stop : Float) (n : Nat) :
    evenlySpaced start stop (n + 2)
      = (List.range (n + 1)).map (pointAt start stop (n + 1)) ++ [stop] := by
  rw [evenlySpaced, Nat.add_succ_sub_one, List.range_succ, List.map_append, List.map_singleton,
    pointAt_last n.succ_pos]

theorem samplePoints_eq {count : Int} (hstart : start.isFinite = true)
    (hstop : stop.isFinite = true) (hne : (start == stop) = false) (hcount : 2 ≤ count) :
    ∃ n : Nat, count = n + 2 ∧ samplePoints start stop count
      = .ok ((List.range (n + 1)).map (pointAt start stop (n + 1)) ++ [stop]) := by
  obtain ⟨n, rfl⟩ : ∃ n : Nat, count = n + 2 := ⟨(count - 2).toNat, by omega⟩
  refine ⟨n, rfl, ?_⟩
  rw [samplePoints, if_neg (by omega), hstart, hstop, hne, Bool.and_false]
  exact congrArg Except.ok (evenlySpaced_eq start stop n)

/-- The first point compares equal to the start if the distance is finite. -/
theorem first_beq_iff (n : Nat) (hstart : start.isFinite = true) :
    (pointAt start stop (n + 1) 0 == start) = true ↔ (stop - start).isFinite = true := by
  constructor
  · intro hfirst
    by_contra hdelta
    rw [beq_eq_false (isFinite_first_of_not n.succ_pos (Bool.eq_false_iff.mpr hdelta)) hstart]
      at hfirst
    cases hfirst
  · intro hdelta
    rw [pointAt_of_lt n.succ_pos]
    exact (ascends_multiple n.succ_pos).first_beq (isFinite_stride n.succ_pos hdelta) hstart

/-- All points are finite if the distance and the last of them before the stop are. -/
theorem forall_isFinite_iff (n : Nat) (hstart : start.isFinite = true) :
    (∀ i < n + 1, (pointAt start stop (n + 1) i).isFinite = true) ↔
      (stop - start).isFinite = true ∧ (pointAt start stop (n + 1) n).isFinite = true := by
  constructor
  · intro h
    refine ⟨?_, h n (Nat.lt_succ_self n)⟩
    by_contra hdelta
    have hfirst := isFinite_first_of_not n.succ_pos (Bool.eq_false_iff.mpr hdelta)
    rw [h 0 n.succ_pos] at hfirst
    cases hfirst
  · rintro ⟨hdelta, hlast⟩ i hi
    rw [pointAt_of_lt (Nat.lt_succ_self n)] at hlast
    rw [pointAt_of_lt hi]
    exact (ascends_multiple n.succ_pos).isFinite_of_le (isFinite_stride n.succ_pos hdelta) hstart
      (Nat.le_of_lt_succ hi) hlast

/-- **When sample points are real points with both ends.** Between two different finite bounds there
are always as many points as asked for, and the last one is the stop. The first one compares equal
to the start exactly if the distance of the bounds, computed in doubles, is finite. Then all points
are finite if the last one before the stop is, and that one always is up to `2 ^ 51` points. -/
theorem samplePoints_real_iff {count : Int} (hstart : start.isFinite = true)
    (hstop : stop.isFinite = true) (hne : (start == stop) = false) (hcount : 2 ≤ count) :
    ∃ xs, samplePoints start stop count = .ok xs ∧ (xs.length : Int) = count ∧
      xs.getLast? = some stop ∧
      ((∃ x ∈ xs.head?, (x == start) = true) ↔ (stop - start).isFinite = true) ∧
      ((∀ x ∈ xs, x.isFinite = true) ↔ (stop - start).isFinite = true ∧
        ∀ x ∈ xs.dropLast.getLast?, x.isFinite = true) ∧
      (count ≤ 2 ^ 51 →
        ((∀ x ∈ xs, x.isFinite = true) ↔ (stop - start).isFinite = true)) := by
  obtain ⟨n, rfl, hpoints⟩ := samplePoints_eq hstart hstop hne hcount
  have hall : (∀ x ∈ (List.range (n + 1)).map (pointAt start stop (n + 1)) ++ [stop],
      x.isFinite = true) ↔ ∀ i < n + 1, (pointAt start stop (n + 1) i).isFinite = true := by
    rw [List.forall_mem_append, List.forall_mem_singleton, List.forall_mem_map]
    simp only [List.mem_range, hstop, and_true]
  refine ⟨_, hpoints, ?_, List.getLast?_concat, ?_, ?_, fun hmany ↦ ?_⟩
  · rw [List.length_append, List.length_map, List.length_range, List.length_singleton]
    omega
  · rw [List.range_succ_eq_map, List.map_cons, List.cons_append, List.head?_cons,
      ← first_beq_iff n hstart]
    simp only [Option.mem_some_iff, exists_eq_left']
  · rw [hall, forall_isFinite_iff n hstart, List.dropLast_concat, List.range_succ, List.map_append,
      List.map_singleton, List.getLast?_concat]
    simp only [Option.mem_some_iff, forall_eq']
  · rw [hall, forall_isFinite_iff n hstart]
    exact and_iff_left_of_imp fun hdelta ↦
      isFinite_before_last (by omega) hstart hstop hdelta

-- From `2 ^ 53` on numbers are not counted exactly. Here the last two counts are the same double, the
-- distance is the largest one, and the last point before the stop is infinite.
example : (pointAt 0.0 (Float.ofBits 0x7FEFFFFFFFFFFFFF) (2 ^ 54 - 4) (2 ^ 54 - 5)).isFinite
    = false := by decide +kernel

/-- Three points from zero to one. -/
theorem samplePoints_real_iff_of_unit :
    ∃ xs, samplePoints 0.0 1.0 3 = .ok xs ∧ xs.length = 3 ∧ xs.getLast? = some 1.0 ∧
      (∃ x ∈ xs.head?, (x == 0.0) = true) ∧ ∀ x ∈ xs, x.isFinite = true := by
  have hstart : (0.0 : Float).isFinite = true := rfl
  have hstop : (1.0 : Float).isFinite = true := rfl
  have hcount : (2 : Int) ≤ 3 := by decide
  obtain ⟨xs, hpoints, hlength, hlast, hfirst, -, hfinite⟩ :=
    samplePoints_real_iff hstart hstop rfl hcount
  exact ⟨xs, hpoints, by omega, hlast, hfirst.mpr rfl, (hfinite (by decide)).mpr rfl⟩

/-- It is not true that the points between any two bounds are real points with both ends: the
distance from `-1e308` to `1e308` is no finite double. -/
theorem not_forall_samplePoints_real :
    ¬∀ (start stop : Float) (count : Int), start.isFinite = true → stop.isFinite = true →
      (start == stop) = false → 2 ≤ count →
        ∃ xs, samplePoints start stop count = .ok xs ∧ (xs.length : Int) = count ∧
          (∃ x ∈ xs.head?, (x == start) = true) ∧ (∃ x ∈ xs.getLast?, (x == stop) = true) ∧
            ∀ x ∈ xs, x.isFinite = true := by
  intro h
  obtain ⟨hstart, hstop, hne, hdelta⟩ : (-1e308 : Float).isFinite = true ∧
      (1e308 : Float).isFinite = true ∧ ((-1e308 : Float) == 1e308) = false ∧
        ((1e308 : Float) - -1e308).isFinite = false := by decide +kernel
  obtain ⟨xs, hpoints, -, -, -, hfinite⟩ := h _ _ 2 hstart hstop hne le_rfl
  obtain ⟨n, -, heq⟩ := samplePoints_eq hstart hstop hne le_rfl
  rw [heq, Except.ok.injEq] at hpoints
  have hfirst : (pointAt (-1e308) 1e308 (n + 1) 0).isFinite = true :=
    hfinite _ (hpoints ▸ List.mem_append_left _ (List.mem_map_of_mem (List.mem_range.mpr n.succ_pos)))
  rw [isFinite_first_of_not n.succ_pos hdelta] at hfirst
  cases hfirst

end ExprSampler
