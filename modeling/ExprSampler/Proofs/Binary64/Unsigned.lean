import ExprSampler.Decimal.Binary64
import ExprSampler.Proofs.Binary64.Patterns

/-!
# Doubles without a sign

Zero, the positive finite doubles and infinity are the doubles whose bit pattern, as a number, is at
most that of infinity. They are the values of written numbers, since a minus sign is never part of
one; negative zero is not among them, though it compares equal to zero.
-/

namespace ExprSampler

namespace Binary64

open Float.Model Float.Model.UnpackedFloat

/-- Zero, a positive finite double or infinity. -/
def Unsigned (v : Float) : Prop :=
  v = 0.0 ∨ 0.0 < v

/-! ## Signs of unpacked doubles -/

/-- The sign of an unpacked double, unless it is no number. -/
def signOf : UnpackedFloat → Option Sign
  | .notANumber => none
  | .infinity s | .zero s | .finite s _ _ _ => some s

theorem zero_lt_iff {v : Float} :
    0.0 < v ↔ UnpackedFloat.compare (.zero .positive) v.toModel.unpack = some .lt := by
  change decide ((0.0 : Float).toModel < v.toModel) = true ↔ _
  rw [decide_eq_true_iff]
  exact beq_iff_eq

theorem unsigned_iff_signOf {v : Float} :
    Unsigned v ↔ signOf v.toModel.unpack = some .positive := by
  rw [Unsigned, zero_lt_iff]
  constructor
  · rintro (rfl | h)
    · rfl
    · rcases hv : v.toModel.unpack with s | _ | s | ⟨s, m, e, hm⟩ <;> rw [hv] at h
      · cases s
        · cases h
        · rfl
      · cases h
      · cases h
      · cases s
        · cases h
        · rfl
  · intro h
    rcases hv : v.toModel.unpack with s | _ | s | ⟨s, m, e, hm⟩ <;> rw [hv] at h
    · obtain rfl := Option.some.inj h
      exact .inr rfl
    · cases h
    · obtain rfl := Option.some.inj h
      exact .inl (eq_of_unpack_eq hv)
    · obtain rfl := Option.some.inj h
      exact .inr rfl

/-! ## Bit patterns -/

theorem toNat_unpackSign (b : BitVec 64) :
    (@unpackSign .binary64 b).toNat = b.toNat / 2 ^ 63 := by
  have hb := b.isLt
  have h : (@unpackSign .binary64 b).toNat = b.toNat / 2 ^ 63 % 2 := by
    rw [unpackSign, BitVec.toNat_cast, BitVec.extractLsb_toNat, Nat.shiftRight_eq_div_pow]
    rfl
  omega

theorem toNat_unpackExponent (b : BitVec 64) :
    (@unpackExponent .binary64 b).toNat = b.toNat / 2 ^ 52 % 2 ^ 11 := by
  rw [unpackExponent, BitVec.toNat_cast, BitVec.extractLsb_toNat, Nat.shiftRight_eq_div_pow]
  rfl

theorem toNat_unpackMantissa (b : BitVec 64) :
    (@unpackMantissa .binary64 b).toNat = b.toNat % 2 ^ 52 := by
  rw [unpackMantissa, BitVec.toNat_cast, BitVec.extractLsb_toNat, Nat.shiftRight_zero]
  rfl

theorem ofBitVec_eq_positive_iff (b : BitVec 1) : Sign.ofBitVec b = .positive ↔ b.toNat = 0 := by
  obtain rfl | rfl : b = 0#1 ∨ b = 1#1 := by
    revert b
    decide
  · exact iff_of_true rfl rfl
  · exact iff_of_false (fun h ↦ nomatch h) (by decide)

/-- The patterns of doubles without a sign are those up to infinity. -/
theorem signOf_unpack_iff (b : BitVec 64) :
    signOf (UnpackedFloat.unpack .binary64 b) = some .positive ↔ b.toNat ≤ infinity := by
  have hs := toNat_unpackSign b
  have he := toNat_unpackExponent b
  have hm := toNat_unpackMantissa b
  have hinfinity : infinity = 2047 * 2 ^ 52 := rfl
  have hb := b.isLt
  have hsign : some (Sign.ofBitVec (@unpackSign .binary64 b)) = some .positive
      ↔ b.toNat / 2 ^ 63 = 0 := by
    rw [Option.some_inj, ofBitVec_eq_positive_iff, hs]
  rw [UnpackedFloat.unpack]
  split
  · next hexp =>
    -- Of the patterns with this exponent the smallest is that of infinity.
    have hones : (@unpackExponent .binary64 b).toNat = 2047 := by rw [hexp]; rfl
    split
    · next hmant =>
      have hzero : (@unpackMantissa .binary64 b).toNat = 0 := by rw [hmant]; rfl
      refine hsign.trans ?_
      omega
    · next hmant =>
      have hzero : (@unpackMantissa .binary64 b).toNat ≠ 0 := fun h ↦
        hmant (BitVec.eq_of_toNat_eq h)
      refine iff_of_false (fun h ↦ nomatch h) ?_
      omega
  · next hexp =>
    have hones : (@unpackExponent .binary64 b).toNat ≠ 2047 := fun h ↦
      hexp (BitVec.eq_of_toNat_eq h)
    have hle : b.toNat / 2 ^ 63 = 0 ↔ b.toNat ≤ infinity := by omega
    split
    · split
      · exact hsign.trans hle
      · exact hsign.trans hle
    · exact hsign.trans hle

/-! ## Numbers of doubles -/

theorem unsigned_iff {v : Float} : Unsigned v ↔ v.toBits.toNat ≤ infinity :=
  unsigned_iff_signOf.trans (signOf_unpack_iff v.toBits.toBitVec)

/-- Up to infinity every number is that of a double. -/
theorem toNat_toBits_ofBits {n : Nat} (h : n ≤ infinity) :
    (Float.ofBits n.toUInt64).toBits.toNat = n := by
  have hinfinity : infinity = 2047 * 2 ^ 52 := rfl
  have hn : n.toUInt64.toNat = n := UInt64.toNat_ofNat_of_lt' (by change n < 2 ^ 64; omega)
  have hvalid : Format.binary64.Valid n.toUInt64.toBitVec := by
    refine ⟨fun hexp hmant ↦ absurd (BitVec.eq_of_toNat_eq ?_) hmant⟩
    have he := toNat_unpackExponent n.toUInt64.toBitVec
    have hm := toNat_unpackMantissa n.toUInt64.toBitVec
    have hones : (@unpackExponent .binary64 n.toUInt64.toBitVec).toNat = 2047 := by rw [hexp]; rfl
    rw [UInt64.toNat_toBitVec, hn] at he hm
    rw [hm]
    change n % 2 ^ 52 = 0
    omega
  rw [toBits_ofBits hvalid, hn]

theorem unsigned_ofBits {n : Nat} (h : n ≤ infinity) : Unsigned (Float.ofBits n.toUInt64) := by
  rw [unsigned_iff, toNat_toBits_ofBits h]
  exact h

section

variable {v : Float}

theorem number_eq (h : Unsigned v) : number v = v.toBits.toNat := by
  have hle := unsigned_iff.mp h
  have hinfinity : infinity = 2047 * 2 ^ 52 := rfl
  exact Nat.mod_eq_of_lt (by change _ < 2 ^ 63; omega)

theorem number_le_infinity (h : Unsigned v) : number v ≤ infinity := by
  rw [number_eq h]
  exact unsigned_iff.mp h

theorem ofBits_number (h : Unsigned v) : Float.ofBits (number v).toUInt64 = v := by
  rw [number_eq h, Nat.toUInt64_eq, UInt64.ofNat_toNat, ofBits_toBits]

theorem isNegative_eq_false (h : Unsigned v) : isNegative v = false := by
  have hle := unsigned_iff.mp h
  have hinfinity : infinity = 2047 * 2 ^ 52 := rfl
  have hlt : ¬Nat.pow 2 63 ≤ v.toBits.toNat := by
    change ¬2 ^ 63 ≤ _
    omega
  rw [isNegative, decide_eq_false hlt, Bool.and_false]

theorem isNaN_eq_false (h : Unsigned v) : v.isNaN = false := by
  refine Bool.eq_false_iff.mpr fun hnan ↦ ?_
  rw [eq_notANumber hnan, unsigned_iff] at h
  exact absurd h (by decide)

theorem isInf_iff (h : Unsigned v) : v.isInf = true ↔ number v = infinity := by
  constructor
  · intro hinf
    rcases eq_infinity hinf with rfl | rfl
    · decide
    · rw [unsigned_iff] at h
      exact absurd h (by decide)
  · intro hnumber
    rw [← ofBits_number h, hnumber]
    decide

end

end Binary64

end ExprSampler
