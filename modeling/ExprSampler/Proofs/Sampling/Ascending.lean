import ExprSampler.Proofs.Binary64.Special
import ExprSampler.Sampling

/-!
# Points on the way to the stop

A point is a multiple of the step added to the start, or a multiple of the whole distance where the
step is a zero. The multiples, whole numbers or shares of one, ascend from a zero. So the points move
away from the start, whatever is rounded on the way: if one of them is finite, all before it are.
-/

namespace ExprSampler

open Binary64

namespace Binary64

/-! ## Ascending multiples -/

/-- A sequence of doubles that starts at a zero and does not fall as long as it is finite. -/
structure Ascends (c : Nat → Float) : Prop where
  zero : IsZero (c 0)
  mono {i j : Nat} : i ≤ j → (c j).isFinite = true →
    (c i).isFinite = true ∧ 0 ≤ value (c i) ∧ value (c i) ≤ value (c j)

theorem ascends_ofInt : Ascends fun i ↦ ofInt i where
  zero := IsZero.of_value (isFinite_ofInt (Nat.two_pow_pos 53)) (isNearest_ofInt 0).value_eq_zero
  mono {i j} hij hj := by
    have hle : (i : ℚ) ≤ j := Nat.cast_le.mpr hij
    have hi := (isNearest_ofInt i).isFinite_of_le (isNearest_ofInt j) hj
      (abs_le_abs_of_nonneg (Nat.cast_nonneg i) hle)
    exact ⟨hi, (isNearest_ofInt i).value_nonneg (Nat.cast_nonneg i),
      (isNearest_ofInt i).value_le (isNearest_ofInt j) hi hj hle⟩

theorem ascends_share {n : Nat} (hn : 0 < n) : Ascends fun i ↦ ofInt i / ofInt n := by
  have hzero : (ofInt (0 : Nat)).isFinite = true := isFinite_ofInt (Nat.two_pow_pos 53)
  by_cases hfinite : (ofInt n).isFinite = true
  · have hpos : 0 < value (ofInt n) := zero_lt_one.trans_le (one_le_value_ofInt hn hfinite)
    have hshare : ∀ {i : Nat}, (ofInt i).isFinite = true →
        IsNearest (ofInt i / ofInt n) (value (ofInt i) / value (ofInt n)) := fun hi ↦
      isNearest_div hi hfinite hpos.ne'
    refine ⟨?_, fun {i j} hij hj ↦ ?_⟩
    · have hnearest := hshare hzero
      rw [(isNearest_ofInt 0).value_eq_zero, zero_div] at hnearest
      refine IsZero.of_value (hnearest.isFinite_of_lt (lt_overflow (Nat.two_pow_pos 53)) ?_)
        hnearest.value_eq_zero
      rw [abs_zero]
      exact Nat.cast_nonneg 0
    · obtain ⟨hi, hnonneg, hle⟩ := ascends_ofInt.mono hij (isFinite_of_div hj)
      have hquotient := div_le_div_of_nonneg_right hle hpos.le
      have hi' := (hshare hi).isFinite_of_le (hshare (isFinite_of_div hj)) hj
        (abs_le_abs_of_nonneg (div_nonneg hnonneg hpos.le) hquotient)
      exact ⟨hi', (hshare hi).value_nonneg (div_nonneg hnonneg hpos.le),
        (hshare hi).value_le (hshare (isFinite_of_div hj)) hi' hj hquotient⟩
  · -- Too many to be counted in doubles: every finite count has the share zero.
    have hinf := isInf_ofInt (Bool.eq_false_iff.mpr hfinite)
    refine ⟨isZero_div hzero hinf, fun {i j} hij hj ↦ ?_⟩
    have hj := isFinite_of_div hj
    have hi := (ascends_ofInt.mono hij hj).1
    refine ⟨(isZero_div hi hinf).isFinite, ?_⟩
    rw [(isZero_div hi hinf).value, (isZero_div hj hinf).value]
    exact ⟨le_rfl, le_rfl⟩

/-! ## Points on the way -/

variable {c : Nat → Float} {f : Float}

/-- On the way from a finite double to another one everything is finite. -/
theorem isFinite_add_of_between {a b start : Float} (ha : a.isFinite = true)
    (hstart : start.isFinite = true) (hb : (b + start).isFinite = true)
    (hbetween : 0 ≤ value a ∧ value a ≤ value b ∨ value b ≤ value a ∧ value a ≤ 0) :
    (a + start).isFinite = true := by
  have hsum := isNearest_add ha hstart
  by_cases hside : |value a + value start| ≤ |value start|
  · exact hsum.isFinite_of_le (.self hstart) hstart hside
  · refine hsum.isFinite_of_le (isNearest_add (isFinite_of_add hb) hstart) hb ?_
    rw [not_le] at hside
    rcases hbetween with ⟨hnonneg, hle⟩ | ⟨hle, hnonpos⟩
    · have hsign : 0 ≤ value a + value start := by
        by_contra hneg
        rw [abs_of_neg (not_le.mp hneg)] at hside
        linarith [neg_le_abs (value start)]
      exact abs_le_abs_of_nonneg hsign (by linarith)
    · have hsign : value a + value start ≤ 0 := by
        by_contra hpos
        rw [abs_of_pos (not_le.mp hpos)] at hside
        linarith [le_abs_self (value start)]
      exact abs_le_abs_of_nonpos hsign (by linarith)

theorem Ascends.isFinite_of_le (hc : Ascends c) (hf : f.isFinite = true) {start : Float}
    (hstart : start.isFinite = true) {i j : Nat} (hij : i ≤ j)
    (hj : (c j * f + start).isFinite = true) : (c i * f + start).isFinite = true := by
  have hproduct := isFinite_of_add hj
  obtain ⟨hi, hnonneg, hle⟩ := hc.mono hij (isFinite_of_mul hproduct)
  have hni := isNearest_mul hi hf
  have hnj := isNearest_mul (isFinite_of_mul hproduct) hf
  have hi' : (c i * f).isFinite = true := by
    refine hni.isFinite_of_le hnj hproduct ?_
    rw [abs_mul, abs_mul]
    exact mul_le_mul_of_nonneg_right (abs_le_abs_of_nonneg hnonneg hle) (abs_nonneg _)
  refine isFinite_add_of_between hi' hstart hj ?_
  rcases le_total 0 (value f) with hsign | hsign
  · exact .inl ⟨hni.value_nonneg (mul_nonneg hnonneg hsign),
      hni.value_le hnj hi' hproduct (mul_le_mul_of_nonneg_right hle hsign)⟩
  · exact .inr ⟨hnj.value_le hni hproduct hi' (mul_le_mul_of_nonpos_right hle hsign),
      hni.value_nonpos (mul_nonpos_of_nonneg_of_nonpos hnonneg hsign)⟩

theorem Ascends.first_beq (hc : Ascends c) (hf : f.isFinite = true) {start : Float}
    (hstart : start.isFinite = true) : (c 0 * f + start == start) = true :=
  (hc.zero.mul hf).add_beq hstart

end Binary64

/-! ## The points of a sample run -/

variable {start stop : Float} {gaps : Nat}

/-- By how much of the step, or of the whole distance, a point is away from the start. -/
def multiple (start stop : Float) (gaps i : Nat) : Float :=
  if (stop - start) / ofInt gaps == 0.0 then ofInt i / ofInt gaps else ofInt i

/-- The step, or the whole distance where the step is a zero. -/
def stride (start stop : Float) (gaps : Nat) : Float :=
  if (stop - start) / ofInt gaps == 0.0 then stop - start else (stop - start) / ofInt gaps

theorem pointAt_of_lt {i : Nat} (hi : i < gaps) :
    pointAt start stop gaps i = multiple start stop gaps i * stride start stop gaps + start := by
  rw [pointAt, multiple, stride, if_neg (by omega), if_neg (by omega)]
  split <;> rfl

theorem pointAt_last (hgaps : 0 < gaps) : pointAt start stop gaps gaps = stop := by
  rw [pointAt, if_neg (by omega), if_pos rfl]

theorem ascends_multiple (hgaps : 0 < gaps) : Ascends (multiple start stop gaps) := by
  unfold multiple
  split
  · exact ascends_share hgaps
  · exact ascends_ofInt

theorem isFinite_step (hgaps : 0 < gaps) (hdelta : (stop - start).isFinite = true) :
    ((stop - start) / ofInt gaps).isFinite = true := by
  by_cases hfinite : (ofInt gaps).isFinite = true
  · have hone := one_le_value_ofInt hgaps hfinite
    refine (isNearest_div hdelta hfinite (by linarith)).isFinite_of_le (.self hdelta) hdelta ?_
    rw [abs_div]
    exact div_le_self (abs_nonneg _) (hone.trans (le_abs_self _))
  · exact (isZero_div hdelta (isInf_ofInt (Bool.eq_false_iff.mpr hfinite))).isFinite

theorem isFinite_stride (hgaps : 0 < gaps) (hdelta : (stop - start).isFinite = true) :
    (stride start stop gaps).isFinite = true := by
  rw [stride]
  split
  · exact hdelta
  · exact isFinite_step hgaps hdelta

/-- An infinite distance makes the first point no number. -/
theorem isFinite_first_of_not (hgaps : 0 < gaps) (hdelta : (stop - start).isFinite = false) :
    (pointAt start stop gaps 0).isFinite = false := by
  have hstep := isFinite_div_of_not hdelta (ofInt gaps)
  rw [pointAt_of_lt hgaps, stride, beq_eq_false hstep rfl, if_neg Bool.false_ne_true]
  exact isFinite_add_of_not (isFinite_mul_of_not_right _ hstep) start

end ExprSampler
