import Mathlib
import PrefixParsing.Proofs.Rounding

/-!
# Multiplication by a sign

A compass letter stands for `1` or `-1`, and the number of an angle is multiplied by it. This file
shows that the product is exact: times `1` a number stays as it is, to the last bit, and times `-1`
it only changes its sign (`mul_one_eq`, `mul_neg_one_eq`). That includes the numbers with few
significant bits close to zero, zero itself, and infinity. Only NaN is left out, since its bits are
not kept.

## How a product is rounded

A product is computed on unpacked numbers, a significand with a power of two, and is rounded by
shifting the significand to the right until it fits. The significand of `1` is `2 ^ 52`, so all that
the shift takes off are the zeros that the product has at its end
(`roundWithAccuracy_mul_two_pow`).

A pattern has one of four shapes: infinity, zero, and the numbers without and with the leading bit
that is not written. The sign is a field of its own in all of them, and a factor with a sign
multiplies the signs (`mul_unit`).
-/

namespace PrefixParsing.Binary64

open Float.Model Float.Model.UnpackedFloat

/-! ## Rounding a number that fits -/

section

variable {m : ℕ} {e : ℤ}

theorem shiftRight_mul_two_pow (m k : ℕ) :
    ExtendedMantissa.ofMantissaAndAccuracy (m * 2 ^ k) .exact >>> k =
      ExtendedMantissa.ofMantissaAndAccuracy m .exact := by
  induction k generalizing m with
  | zero =>
    rw [pow_zero, mul_one]
    rfl
  | succ k ih =>
    rw [pow_succ', ← mul_assoc]
    show ExtendedMantissa.shiftRightOne
      (ExtendedMantissa.ofMantissaAndAccuracy (m * 2 * 2 ^ k) .exact >>> k) = _
    rw [ih]
    simp [ExtendedMantissa.ofMantissaAndAccuracy, ExtendedMantissa.shiftRightOne]

theorem log2_mul_two_pow (hm : 0 < m) (k : ℕ) : (m * 2 ^ k).log2 = m.log2 + k := by
  induction k with
  | zero => rw [pow_zero, mul_one, add_zero]
  | succ k ih =>
    rw [pow_succ', Nat.mul_left_comm, Nat.log2_two_mul (by positivity), ih, add_assoc]

theorem totalExponent_mul_two_pow (hm : 0 < m) (k : ℕ) (e : ℤ) :
    totalExponent (m * 2 ^ k) (e - k) = totalExponent m e := by
  rw [totalExponent, totalExponent, log2_mul_two_pow hm]
  omega

theorem shiftToTargetExponent_mul_two_pow (hm : 0 < m)
    (htarget : Format.binary64.targetExponent (totalExponent m e) = e) (k : ℕ) :
    shiftToTargetExponent .binary64 (m * 2 ^ k) (e - k) .exact =
      (ExtendedMantissa.ofMantissaAndAccuracy m .exact, e) := by
  have hshift : (e - (e - k)).toNat = k := by omega
  rw [shiftToTargetExponent, totalExponent_mul_two_pow hm, htarget, shiftToExponent, hshift]
  simp only [shiftRight_mul_two_pow, sub_add_cancel]

/-- A significand that fits is found again if zeros have been put behind it. -/
theorem roundWithAccuracy_mul_two_pow (s : Sign) (hm : 0 < m)
    (htarget : Format.binary64.targetExponent (totalExponent m e) = e) (k : ℕ) :
    roundWithAccuracy .binary64 s (m * 2 ^ k) (e - k) .exact = .finite s m e hm := by
  have hround := shiftToTargetExponent_mul_two_pow hm htarget k
  -- after rounding comes a second shift, in case of a carry; here there is none
  have hagain := shiftToTargetExponent_mul_two_pow hm htarget 0
  rw [pow_zero, mul_one, Nat.cast_zero, sub_zero] at hagain
  have hexact : (ExtendedMantissa.ofMantissaAndAccuracy m .exact).roundedMantissa = m := rfl
  simp only [roundWithAccuracy, hround, hexact, hagain]
  exact dif_neg hm.ne'

theorem targetExponent_eq (hm : 0 < m) (hlt : m < 2 ^ 53) (he : -1074 ≤ e)
    (hfull : 2 ^ 52 ≤ m ∨ e = -1074) :
    Format.binary64.targetExponent (totalExponent m e) = e := by
  have hlog : m.log2 < 53 := (Nat.log2_lt hm.ne').mpr hlt
  have hlog' : 2 ^ 52 ≤ m → 52 ≤ m.log2 := (Nat.le_log2 hm.ne').mpr
  show max (m.log2 + 1 + e - 53) (-1074) = e
  omega

/-- `1` or `-1` as a significand with a power of two. -/
def unit (s : Sign) : UnpackedFloat := .finite s (2 ^ 52) (-52) (by decide)

theorem mul_finite_unit (s t : Sign) (hm : 0 < m) (hlt : m < 2 ^ 53) (he : -1074 ≤ e)
    (hfull : 2 ^ 52 ≤ m ∨ e = -1074) :
    UnpackedFloat.mul .binary64 (.finite s m e hm) (unit t) = .finite (s * t) m e hm :=
  roundWithAccuracy_mul_two_pow (s * t) hm (targetExponent_eq hm hlt he hfull) 52

end

/-! ## Patterns by their fields -/

/-- The pattern with a sign, an exponent and the written bits of a significand. -/
abbrev fields (s : Sign) (e : BitVec 11) (m : BitVec 52) : BitVec 64 :=
  packComponents .binary64 s e m

variable {e : BitVec 11} {m : BitVec 52}

theorem exists_eq_fields (b : BitVec 64) : ∃ s e m, b = fields s e m :=
  ⟨_, _, _, (@packComponents_unpackSign_unpackExponent_unpackMantissa .binary64 b).symm⟩

theorem toNat_fields (s : Sign) (e : BitVec 11) (m : BitVec 52) :
    (fields s e m).toNat = s.toBitVec.toNat * 2 ^ 63 + e.toNat * 2 ^ 52 + m.toNat := by
  simp only [fields, packComponents, BitVec.toNat_append]
  rw [← Nat.shiftLeft_add_eq_or_of_lt m.isLt, ← Nat.shiftLeft_add_eq_or_of_lt e.isLt]
  simp only [Nat.shiftLeft_eq]
  omega

theorem toNat_one_append (m : BitVec 52) : (1#1 ++ m).toNat = 2 ^ 52 + m.toNat := by
  rw [BitVec.toNat_append, ← Nat.shiftLeft_add_eq_or_of_lt m.isLt]
  rfl

theorem unpack_infinity (s : Sign) : unpack .binary64 (fields s (-1#11) 0#52) = .infinity s := by
  cases s <;> rfl

theorem unpack_subnormal (s : Sign) (hpos : 0 < m.toNat) :
    unpack .binary64 (fields s 0#11 m) = .finite s m.toNat (-1074) hpos := by
  have hm : m ≠ 0#52 := fun h ↦ hpos.ne' (congrArg BitVec.toNat h)
  rw [UnpackedFloat.unpack]
  simp only [unpackMantissa_packComponents, unpackExponent_packComponents,
    unpackSign_packComponents, Sign.ofBitVec_toBitVec]
  rw [if_neg (by decide), if_pos trivial, dif_neg hm]
  rfl

theorem unpack_normal (s : Sign) (hzero : e ≠ 0#11) (hones : e ≠ -1#11)
    (hpos : 0 < 2 ^ 52 + m.toNat) :
    unpack .binary64 (fields s e m) = .finite s (2 ^ 52 + m.toNat) (e.toNat - 1075) hpos := by
  rw [UnpackedFloat.unpack]
  simp only [unpackMantissa_packComponents, unpackExponent_packComponents,
    unpackSign_packComponents, Sign.ofBitVec_toBitVec, toNat_one_append]
  rw [if_neg hones, if_neg hzero]
  rfl

/-- The product of a number and a sign has the product of the signs. -/
theorem mul_unit (hnumber : e = -1#11 → m = 0#52) (s t : Sign) :
    UnpackedFloat.mul .binary64 (unpack .binary64 (fields s e m)) (unit t) =
      unpack .binary64 (fields (s * t) e m) := by
  by_cases hones : e = -1#11
  · rw [hones, hnumber hones, unpack_infinity, unpack_infinity]
    rfl
  · by_cases hzero : e = 0#11
    · rw [hzero]
      by_cases hm : m = 0#52
      · have hunpack (s : Sign) : unpack .binary64 (fields s 0#11 0#52) = .zero s :=
          unpack_packedZero
        rw [hm, hunpack, hunpack]
        rfl
      · have hpos : 0 < m.toNat := Nat.pos_of_ne_zero fun h ↦ hm (BitVec.eq_of_toNat_eq h)
        have hlt : m.toNat < 2 ^ 53 := m.isLt.trans (by decide)
        rw [unpack_subnormal s hpos, unpack_subnormal (s * t) hpos]
        exact mul_finite_unit s t hpos hlt le_rfl (.inr rfl)
    · have hpos : 0 < 2 ^ 52 + m.toNat := by omega
      have hlt := m.isLt
      have hexponent : e.toNat ≠ 0 := fun h ↦ hzero (BitVec.eq_of_toNat_eq h)
      rw [unpack_normal s hzero hones hpos, unpack_normal (s * t) hzero hones hpos]
      exact mul_finite_unit s t hpos (by omega) (by omega) (.inl (by omega))

theorem pack_unpack_fields (hnumber : e = -1#11 → m = 0#52) (s : Sign) :
    UnpackedFloat.pack .binary64 (unpack .binary64 (fields s e m)) = fields s e m := by
  rw [pack_unpack, if_neg]
  simpa [isNaNBits] using hnumber

/-! ## Numbers times a sign -/

/-- The number with a pattern given by its fields. -/
abbrev ofFields (s : Sign) (e : BitVec 11) (m : BitVec 52) : Binary64 := ⟨⟨fields s e m⟩⟩

theorem ofFields_mul_unit (hnumber : e = -1#11 → m = 0#52) (s t : Sign) :
    ofFields s e m * ofFields t 0x3FF#11 0#52 = ofFields (s * t) e m := by
  have hunit : unpack .binary64 (fields t 0x3FF#11 0#52) = unit t :=
    unpack_normal t (by decide) (by decide) (by decide)
  have hproduct : ofFields s e m * ofFields t 0x3FF#11 0#52 =
      ⟨⟨UnpackedFloat.pack .binary64 (UnpackedFloat.mul .binary64
        (unpack .binary64 (UnpackedFloat.pack .binary64 (unpack .binary64 (fields s e m))))
        (unpack .binary64 (UnpackedFloat.pack .binary64
          (unpack .binary64 (fields t 0x3FF#11 0#52)))))⟩⟩ := rfl
  rw [hproduct, pack_unpack_fields hnumber, pack_unpack_fields (by decide), hunit,
    mul_unit hnumber, pack_unpack_fields hnumber]

theorem neg_ofFields (s : Sign) (e : BitVec 11) (m : BitVec 52) :
    -ofFields s e m = ofFields (s * .negative) e m := by
  have hmask : (0x8000000000000000#64) = 1#1 ++ 0#11 ++ 0#52 := by decide
  have hsign : s.toBitVec ^^^ 1#1 = (s * .negative).toBitVec := by cases s <;> rfl
  have hbits : fields s e m ^^^ 0x8000000000000000#64 = fields (s * .negative) e m := by
    rw [hmask, fields, packComponents, BitVec.xor_append, BitVec.xor_append, hsign,
      BitVec.xor_zero, BitVec.xor_zero]
    rfl
  exact congrArg (fun b ↦ Binary64.mk ⟨b⟩) hbits

theorem one_eq_ofFields : one = ofFields .positive 0x3FF#11 0#52 := by
  decide +kernel

theorem exists_eq_ofFields {x : Binary64} (hx : x.isNaN = false) :
    ∃ s e m, x = ofFields s e m ∧ (e = -1#11 → m = 0#52) := by
  obtain ⟨s, e, m, h⟩ := exists_eq_fields x.bits.toBitVec
  refine ⟨s, e, m, congrArg (fun b ↦ Binary64.mk ⟨b⟩) h, ?_⟩
  rintro rfl
  have hbits : x.bits.toNat = s.toBitVec.toNat * 2 ^ 63 + 2047 * 2 ^ 52 + m.toNat :=
    (congrArg BitVec.toNat h).trans (toNat_fields s _ m)
  rw [isNaN_eq_false_iff, magnitude, hbits, infinityBits] at hx
  refine BitVec.eq_of_toNat_eq ?_
  show m.toNat = 0
  have hm := m.isLt
  omega

variable {x : Binary64}

/-- Times one a number stays as it is. -/
theorem mul_one_eq (hx : x.isNaN = false) : x * one = x := by
  obtain ⟨s, e, m, rfl, hnumber⟩ := exists_eq_ofFields hx
  rw [one_eq_ofFields, ofFields_mul_unit hnumber]
  cases s <;> rfl

/-- Times minus one a number changes its sign. -/
theorem mul_neg_one_eq (hx : x.isNaN = false) : x * -one = -x := by
  obtain ⟨s, e, m, rfl, hnumber⟩ := exists_eq_ofFields hx
  rw [one_eq_ofFields, neg_ofFields, neg_ofFields]
  exact ofFields_mul_unit hnumber s .negative

end PrefixParsing.Binary64
