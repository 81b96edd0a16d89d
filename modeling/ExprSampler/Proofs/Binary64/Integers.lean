import ExprSampler.Proofs.Binary64.Powers
import ExprSampler.Proofs.Binary64.Unsigned
import ExprSampler.Proofs.Decimal.Reading

/-!
# Integers as doubles

Which integers have a nearest double that is finite: those below the middle between the largest
finite double, `(2 ^ 53 - 1) * 2 ^ 971`, and the next number with so few leading bits, `2 ^ 1024`.
The middle itself is rounded up, as the largest finite double ends in an odd bit. The sign takes no
part in this; that is seen on the bit patterns, whose exponent a change of sign leaves alone.
-/

namespace ExprSampler

/-- A quotient is rounded to a number above an odd one from halfway on. -/
theorem lt_divRound_iff_of_odd {num den q : Nat} (hden : 0 < den) (hq : q % 2 = 1) :
    q < divRound num den ↔ (2 * q + 1) * den ≤ 2 * num := by
  rw [lt_divRound_iff hden, Nat.le_iff_lt_or_eq]
  exact or_congr_right (and_iff_left hq)

namespace Binary64

open Float.Model Float.Model.UnpackedFloat

/-- The middle between the largest finite double and `2 ^ 1024`. -/
def overflow : Nat := 2 ^ 1024 - 2 ^ 970

/-- Below `2 ^ 1023` an integer is nearest to a finite double. -/
theorem nearest_one_lt {n : Nat} (h : n < 2 ^ 1023) : nearest n 1 < infinity := by
  obtain ⟨e, he, hone⟩ := exists_one_eq
  obtain ⟨k, hk, hpow⟩ : ∃ k, k = 1023 + e ∧ 2 ^ k = 2 ^ 1023 * one :=
    ⟨_, rfl, by rw [hone, pow_add]⟩
  have hsize : n * one / 1 < 2 ^ k := by
    rw [Nat.div_one, hpow]
    exact Nat.mul_lt_mul_of_pos_right h one_pos
  have hcut : cut n 1 + 52 < k := by
    rw [cut]
    by_cases hzero : n * one / 1 = 0
    · rw [hzero, Nat.log2_zero]
      omega
    · have hlog := (Nat.log2_lt hzero).mpr hsize
      omega
  have hkept := kept_le n 1
  have hinfinity : infinity = 2047 * 2 ^ 52 := rfl
  rw [nearest_eq]
  refine (Nat.min_le_right _ _).trans_lt ?_
  clear h hone hpow hsize
  omega

theorem log2_mul_one {n k k' : Nat} (hlo : 2 ^ k ≤ n) (hhi : n < 2 ^ k') (hk : k' = k + 1) :
    (n * one).log2 = k + 1074 := by
  obtain ⟨e, he, hone⟩ := exists_one_eq
  subst hk
  have hpos : n * one ≠ 0 :=
    Nat.ne_of_gt (Nat.mul_pos ((Nat.two_pow_pos k).trans_le hlo) one_pos)
  rw [← he, Nat.log2_eq_iff hpos, Nat.add_right_comm, pow_add, pow_add, ← hone]
  exact ⟨Nat.mul_le_mul_right one hlo, Nat.mul_lt_mul_of_pos_right hhi one_pos⟩

theorem nearest_one_eq_infinity_iff (n : Nat) : nearest n 1 = infinity ↔ overflow ≤ n := by
  obtain ⟨w, hpos, hsteps, hhalf, hlow, hhigh⟩ : ∃ w, 0 < w ∧ 2 ^ 2045 = one * w ∧
      2 * overflow = (2 * (2 ^ 53 - 1) + 1) * w ∧ 2 ^ 1023 ≤ overflow ∧ overflow ≤ 2 ^ 1024 :=
    ⟨2 ^ 971, by decide +kernel⟩
  by_cases hlarge : 2 ^ 1024 ≤ n
  · exact iff_of_true (nearest_of_ge Nat.one_pos (by rwa [Nat.mul_one])) (hhigh.trans hlarge)
  by_cases hsmall : n < 2 ^ 1023
  · exact iff_of_false (Nat.ne_of_lt (nearest_one_lt hsmall))
      (Nat.not_le.mpr (hsmall.trans_le hlow))
  -- Here 2045 bits are cut off, among them all of those of the steps in one, and 53 are left.
  have hshift : (n * one / 1).log2 - 52 = 2045 := by
    rw [Nat.div_one, log2_mul_one (Nat.not_lt.mp hsmall) (Nat.not_le.mp hlarge) rfl]
  have hround : divRound (n * one) (1 * 2 ^ 2045) = divRound n w := by
    rw [Nat.one_mul, hsteps, Nat.mul_comm n one, divRound_mul_left one_pos]
  have hmiddle : 2 ^ 53 - 1 < divRound n w ↔ overflow ≤ n := by
    rw [lt_divRound_iff_of_odd hpos (by decide), ← hhalf]
    exact Nat.mul_le_mul_left_iff Nat.two_pos
  have hinfinity : infinity = 2047 * 2 ^ 52 := rfl
  rw [nearest_of_shift hshift, hround, ← hmiddle, hinfinity]
  generalize divRound n w = r
  clear * -
  omega

/-! ## Signs -/

theorem unpackExponent_packComponents (s : Sign) (e : BitVec 11) (m : BitVec 52) :
    @unpackExponent .binary64 (packComponents .binary64 s e m) = e := by
  refine BitVec.eq_of_getLsbD_eq fun i hi ↦ ?_
  have hi : i < 11 := hi
  simp only [packComponents, unpackExponent, BitVec.getLsbD_append, BitVec.getLsbD_cast,
    BitVec.getLsbD_extractLsb]
  simp [hi]

theorem unpackExponent_pack_neg (x : UnpackedFloat) :
    @unpackExponent .binary64 (x.neg.pack .binary64) = unpackExponent (x.pack .binary64) := by
  rcases x with s | _ | s | ⟨s, m, e, hm⟩
  · exact (unpackExponent_packComponents (-s) _ _).trans (unpackExponent_packComponents s _ _).symm
  · rfl
  · exact (unpackExponent_packComponents (-s) _ _).trans (unpackExponent_packComponents s _ _).symm
  · simp only [UnpackedFloat.neg, UnpackedFloat.pack, packedInfinity]
    -- the sign takes no part in the choice of the fields
    split
    · rw [unpackExponent_packComponents, unpackExponent_packComponents]
    split <;> rw [unpackExponent_packComponents, unpackExponent_packComponents]

/-- A double is finite exactly if the exponent of its pattern is not all ones. -/
theorem isFinite_unpack_iff (b : BitVec 64) :
    (UnpackedFloat.unpack .binary64 b).isFinite = true ↔ @unpackExponent .binary64 b ≠ -1#11 := by
  rw [UnpackedFloat.unpack]
  split
  · next hexp =>
    refine iff_of_false ?_ (not_not_intro hexp)
    split <;> exact Bool.false_ne_true
  · next hexp =>
    refine iff_of_true ?_ hexp
    split
    · split <;> rfl
    · rfl

theorem isFinite_neg (v : Float) : (-v).isFinite = v.isFinite := by
  obtain ⟨⟨bits, valid⟩⟩ := v
  have hneg : (-(⟨⟨bits, valid⟩⟩ : Float)).isFinite = (UnpackedFloat.unpack .binary64
      (UnpackedFloat.pack .binary64 (UnpackedFloat.unpack .binary64 bits.toBitVec).neg)).isFinite :=
    rfl
  rw [hneg, Bool.eq_iff_iff, isFinite_unpack_iff, unpackExponent_pack_neg, pack_unpack valid]
  exact (isFinite_unpack_iff bits.toBitVec).symm

/-! ## Integers -/

theorem isFinite_iff_number_ne {v : Float} (h : Unsigned v) :
    v.isFinite = true ↔ number v ≠ infinity := by
  rw [Ne, ← isInf_iff h]
  constructor
  · intro hfinite hinf
    rcases eq_infinity hinf with rfl | rfl <;> cases hfinite
  · intro hinf
    exact isFinite_of_not (isNaN_eq_false h) (Bool.eq_false_iff.mpr hinf)

/-- **An integer is nearest to a finite double if its size is below the middle** between the
largest one and `2 ^ 1024`. -/
theorem isFinite_ofInt_iff (n : Int) : (ofInt n).isFinite = true ↔ n.natAbs < overflow := by
  have hnumber : Decimal.toNumber ⟨n.natAbs, 0⟩ = nearest n.natAbs 1 := by
    rw [Decimal.toNumber_eq_nearest, Decimal.num, Decimal.den]
    simp
  have hle : nearest n.natAbs 1 ≤ infinity := nearest_le_infinity _ _
  have hsize : (Float.ofBits (nearest n.natAbs 1).toUInt64).isFinite = true ↔
      n.natAbs < overflow := by
    rw [isFinite_iff_number_ne (unsigned_ofBits hle), number_eq (unsigned_ofBits hle),
      toNat_toBits_ofBits hle, Ne, nearest_one_eq_infinity_iff, Nat.not_le]
  rw [ofInt, Decimal.toSignedFloat, Decimal.toFloat, hnumber]
  split
  · rw [isFinite_neg, hsize]
  · exact hsize

end Binary64

end ExprSampler
