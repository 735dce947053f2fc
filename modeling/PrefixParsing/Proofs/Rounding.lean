import PrefixParsing.Proofs.Patterns

/-!
# Rounding is correct

`Binary64.ofRatio` gives the number nearest to a fraction, a tie going to the even significand, and
infinity from the midpoint on between the largest finite number and the power of two above it. This
is `RoundedFrom`, which speaks of the rational numbers that bits stand for and not of how they are
found. It leaves no choice (`RoundedFrom.unique`): of two numbers that are equally near only one has
an even significand.

Nearest among the numbers follows from nearest among the patterns. The numbers with a sign are not
in the order of their patterns, but none of them is nearer to a fraction than its magnitude.
-/

namespace PrefixParsing.Binary64

/-! ## The numbers that bits stand for -/

/-- One for a negative number. -/
def signBit (x : Binary64) : ℕ := x.bits.toNat / 2 ^ 63

/-- The pattern of the bits without the sign. -/
def magnitude (x : Binary64) : ℕ := x.bits.toNat % 2 ^ 63

/-- The finite numbers are below infinity. -/
def IsFinite (x : Binary64) : Prop := x.magnitude < infinityBits

/-- How many units make one: the least positive number is `2⁻¹⁰⁷⁴`. -/
def unitsInOne : ℚ := 2 ^ 1074

theorem unitsInOne_pos : 0 < unitsInOne := by
  rw [unitsInOne]
  positivity

/-- The rational number that finite bits stand for. -/
def toRat (x : Binary64) : ℚ := (-1) ^ x.signBit * (units x.magnitude / unitsInOne)

theorem isNaN_eq_false_iff (x : Binary64) : x.isNaN = false ↔ x.magnitude ≤ infinityBits := by
  have hmask : (x.bits &&& 0x7FFFFFFFFFFFFFFF).toNat = x.magnitude := by
    rw [UInt64.toNat_and]
    exact Nat.and_two_pow_sub_one_eq_mod x.bits.toNat 63
  rw [isNaN, decide_eq_false_iff_not, gt_iff_lt, UInt64.not_lt, UInt64.le_iff_toNat_le,
    hmask]
  rfl

/-- No finite number is nearer to `q`, and if a different one is as near the significand is even. -/
structure IsNearestEven (x : Binary64) (q : ℚ) : Prop where
  isFinite : x.IsFinite
  abs_sub_le (y : Binary64) : y.IsFinite → |q - x.toRat| ≤ |q - y.toRat|
  even_of_tie (y : Binary64) : y.IsFinite → y.toRat ≠ x.toRat →
    |q - y.toRat| = |q - x.toRat| → Even (significand x.magnitude)

theorem even_significand_iff (pattern : ℕ) : Even (significand pattern) ↔ Even pattern := by
  rw [Nat.even_iff, Nat.even_iff, significand]
  split_ifs <;> omega

/-- A number is what a non-negative rational is rounded to: infinity if that is too large, and
otherwise the nearest number. -/
structure RoundedFrom (x : Binary64) (q : ℚ) : Prop where
  signBit_eq : x.signBit = 0
  isNaN_eq : x.isNaN = false
  bits_eq_infinity_iff : x.bits.toNat = infinityBits ↔ 2 ^ 1024 - 2 ^ 970 ≤ q
  isNearestEven : q < 2 ^ 1024 - 2 ^ 970 → x.IsNearestEven q

theorem toRat_zero : toRat ⟨0⟩ = 0 := by
  rw [toRat, show units (magnitude ⟨0⟩) = 0 by decide, Nat.cast_zero, zero_div, mul_zero]

theorem toRat_eq_of_signBit_eq {x : Binary64} (h : x.signBit = 0) :
    x.toRat = units x.magnitude / unitsInOne := by
  rw [toRat, h, pow_zero, one_mul]

theorem abs_toRat (x : Binary64) : |x.toRat| = units x.magnitude / unitsInOne := by
  rw [toRat, abs_mul, abs_pow, abs_neg, abs_one, one_pow, one_mul,
    abs_of_nonneg (div_nonneg (Nat.cast_nonneg _) unitsInOne_pos.le)]

/-- A number without a sign is nearest if its pattern is nearest among all patterns. -/
theorem IsNearestEven.of_roundsTo {x : Binary64} {q : ℚ} (hsign : x.signBit = 0)
    (hfinite : x.IsFinite) (hq : 0 ≤ q) (h : RoundsTo (q * unitsInOne) x.magnitude) :
    x.IsNearestEven q := by
  have hx : x.toRat = |x.toRat| := by rw [abs_toRat, toRat_eq_of_signBit_eq hsign]
  have hscale (y : Binary64) :
      |q * unitsInOne - units y.magnitude| = |(q - |y.toRat|)| * unitsInOne := by
    rw [abs_toRat, ← abs_of_pos unitsInOne_pos, ← abs_mul, abs_of_pos unitsInOne_pos, sub_mul,
      div_mul_cancel₀ _ unitsInOne_pos.ne']
  have hnear (y : Binary64) : |q - x.toRat| ≤ |(q - |y.toRat|)| := by
    have hle := (h.nearest y.magnitude).1
    rwa [hscale, hscale, mul_le_mul_iff_of_pos_right unitsInOne_pos, ← hx] at hle
  have hpositive (y : Binary64) : |(q - |y.toRat|)| ≤ |q - y.toRat| := by
    have hle := abs_abs_sub_abs_le_abs_sub q y.toRat
    rwa [abs_of_nonneg hq] at hle
  refine ⟨hfinite, fun y _ ↦ (hnear y).trans (hpositive y), fun y _ hne htie ↦ ?_⟩
  have heq : |(q - |y.toRat|)| = |q - x.toRat| :=
    ((hpositive y).trans htie.le).antisymm (hnear y)
  by_cases hmagnitude : y.magnitude = x.magnitude
  · -- the opposite number is not as near, for zero is nearer than that
    have hopposite : y.toRat = -x.toRat := by
      refine (abs_eq_abs.mp ?_).resolve_left hne
      rw [abs_toRat, abs_toRat, hmagnitude]
    have hzero : |q - x.toRat| ≤ |q| := by
      have hle := hnear ⟨0⟩
      rwa [toRat_zero, abs_zero, sub_zero] at hle
    have hnonneg : 0 ≤ x.toRat := hx ▸ abs_nonneg _
    rw [hopposite, sub_neg_eq_add, abs_of_nonneg (add_nonneg hq hnonneg)] at htie
    rw [← htie, abs_of_nonneg hq] at hzero
    exact absurd (by linarith) hne
  · rw [even_significand_iff]
    refine (h.nearest y.magnitude).2 hmagnitude ?_
    rw [hscale, hscale, heq, ← hx]

/-! ## There is only one number to round to -/

theorem toRat_lt_toRat {x y : Binary64} (hx : x.signBit = 0) (hy : y.signBit = 0)
    (h : x.magnitude < y.magnitude) : x.toRat < y.toRat := by
  rw [toRat_eq_of_signBit_eq hx, toRat_eq_of_signBit_eq hy]
  exact div_lt_div_of_pos_right (Nat.cast_lt.mpr (units_strictMono h)) unitsInOne_pos

theorem eq_of_magnitude_eq {x y : Binary64} (hx : x.signBit = 0) (hy : y.signBit = 0)
    (h : x.magnitude = y.magnitude) : x = y := by
  have hbits : x.bits.toNat = y.bits.toNat := by
    rw [← Nat.div_add_mod x.bits.toNat (2 ^ 63), ← Nat.div_add_mod y.bits.toNat (2 ^ 63)]
    exact congrArg₂ (2 ^ 63 * · + ·) (hx.trans hy.symm) h
  exact congrArg Binary64.mk (UInt64.toNat_inj.mp hbits)

theorem exists_magnitude_eq {pattern : ℕ} (h : pattern < infinityBits) :
    ∃ x : Binary64, x.signBit = 0 ∧ x.IsFinite ∧ x.magnitude = pattern := by
  have hlt : pattern < 2 ^ 63 := h.trans (by decide)
  have hbits : (UInt64.ofNat pattern).toNat = pattern :=
    UInt64.toNat_ofNat_of_lt' (hlt.trans (by decide))
  have hmagnitude : magnitude ⟨UInt64.ofNat pattern⟩ = pattern :=
    (congrArg (· % 2 ^ 63) hbits).trans (Nat.mod_eq_of_lt hlt)
  refine ⟨⟨UInt64.ofNat pattern⟩, ?_, ?_, hmagnitude⟩
  · exact (congrArg (· / 2 ^ 63) hbits).trans (Nat.div_eq_of_lt hlt)
  · exact hmagnitude.trans_lt h

/-- Two nearest numbers would both have an even pattern, and one between them would be nearer. -/
theorem IsNearestEven.magnitude_le {x y : Binary64} {q : ℚ} (hx : x.IsNearestEven q)
    (hy : y.IsNearestEven q) (hsx : x.signBit = 0) (hsy : y.signBit = 0) :
    x.magnitude ≤ y.magnitude := by
  by_contra hnot
  have hlt : y.magnitude < x.magnitude := not_le.mp hnot
  have hxy : y.toRat < x.toRat := toRat_lt_toRat hsy hsx hlt
  have htie : |q - x.toRat| = |q - y.toRat| :=
    (hx.abs_sub_le y hy.isFinite).antisymm (hy.abs_sub_le x hx.isFinite)
  have hevenx := (even_significand_iff _).mp (hx.even_of_tie y hy.isFinite hxy.ne htie.symm)
  have heveny := (even_significand_iff _).mp (hy.even_of_tie x hx.isFinite hxy.ne' htie)
  have hbetween : y.magnitude + 1 < x.magnitude := by
    refine lt_of_le_of_ne hlt fun heq ↦ ?_
    rw [← heq] at hevenx
    exact Nat.even_add_one.mp hevenx heveny
  obtain ⟨z, hsz, hfinite, hz⟩ := exists_magnitude_eq (hbetween.trans hx.isFinite)
  have hyz : y.toRat < z.toRat := toRat_lt_toRat hsy hsz (hz ▸ y.magnitude.lt_succ_self)
  have hzx : z.toRat < x.toRat := toRat_lt_toRat hsz hsx (hz ▸ hbetween)
  have hbelow : q ≤ (y.toRat + z.toRat) / 2 :=
    (abs_sub_le_abs_sub_iff hyz).1.mp (hy.abs_sub_le z hfinite)
  have habove : (z.toRat + x.toRat) / 2 ≤ q :=
    (abs_sub_le_abs_sub_iff hzx).2.mp (hx.abs_sub_le z hfinite)
  linarith

/-- A rational is rounded to one number only. -/
theorem RoundedFrom.unique {x y : Binary64} {q : ℚ} (hx : x.RoundedFrom q) (hy : y.RoundedFrom q) :
    x = y := by
  rcases lt_or_ge q (2 ^ 1024 - 2 ^ 970) with hlt | hge
  · have hnx := hx.isNearestEven hlt
    have hny := hy.isNearestEven hlt
    refine eq_of_magnitude_eq hx.signBit_eq hy.signBit_eq (le_antisymm ?_ ?_)
    · exact hnx.magnitude_le hny hx.signBit_eq hy.signBit_eq
    · exact hny.magnitude_le hnx hy.signBit_eq hx.signBit_eq
  · have hbits := (hx.bits_eq_infinity_iff.mpr hge).trans (hy.bits_eq_infinity_iff.mpr hge).symm
    exact congrArg Binary64.mk (UInt64.toNat_inj.mp hbits)

/-! ## Fractions are rounded correctly -/

/-- The midpoint between the largest finite number and the power of two above it. -/
theorem midpoint_infinityBits_pred :
    midpoint (infinityBits - 1) = (2 ^ 1024 - 2 ^ 970) * unitsInOne := by
  have hpattern : infinityBits - 1 = 2045 * 2 ^ 52 + (2 ^ 53 - 1) := by decide
  have hscale : (2 : ℚ) ^ 2045 = 2 * 2 ^ 970 * 2 ^ 1074 := by rw [← pow_succ', ← pow_add]
  have htop : (2 : ℚ) ^ 1024 = 2 ^ 54 * 2 ^ 970 := by rw [← pow_add]
  rw [hpattern, midpoint_of_isScaled ⟨by decide, .inr (by decide)⟩ (by decide), hscale, htop,
    unitsInOne]
  generalize (2 : ℚ) ^ 970 = a
  generalize (2 : ℚ) ^ 1074 = b
  norm_num
  ring

section Ratio

variable (num den : ℕ)

theorem ratioBits_eq :
    ratioBits num den = min (quotientPattern (num <<< 1074) den) infinityBits := rfl

theorem ratioBits_le_infinityBits : ratioBits num den ≤ infinityBits := Nat.min_le_right _ _

theorem cast_shiftLeft_div (k : ℕ) : ((num <<< k : ℕ) / den : ℚ) = num / den * 2 ^ k := by
  rw [Nat.shiftLeft_eq, Nat.cast_mul, Nat.cast_pow, Nat.cast_ofNat, div_mul_eq_mul_div]

theorem toNat_bits_ofRatio : (ofRatio num den).bits.toNat = ratioBits num den := by
  exact UInt64.toNat_ofNat_of_lt' ((ratioBits_le_infinityBits num den).trans_lt (by decide))

theorem signBit_ofRatio : (ofRatio num den).signBit = 0 := by
  rw [signBit, toNat_bits_ofRatio]
  exact Nat.div_eq_of_lt ((ratioBits_le_infinityBits num den).trans_lt (by decide))

theorem magnitude_ofRatio : (ofRatio num den).magnitude = ratioBits num den := by
  rw [magnitude, toNat_bits_ofRatio]
  exact Nat.mod_eq_of_lt ((ratioBits_le_infinityBits num den).trans_lt (by decide))

theorem isNaN_ofRatio : (ofRatio num den).isNaN = false := by
  rw [isNaN_eq_false_iff, magnitude_ofRatio]
  exact ratioBits_le_infinityBits num den

variable {den}

/-- A fraction in units. -/
theorem roundsTo_ratio (hden : 0 < den) :
    RoundsTo (num / den * unitsInOne) (quotientPattern (num <<< 1074) den) := by
  rw [unitsInOne, ← cast_shiftLeft_div]
  exact roundsTo_quotientPattern _ hden

/-- Infinity is reached at the midpoint above the largest finite number. -/
theorem ratioBits_eq_infinityBits_iff (hden : 0 < den) :
    ratioBits num den = infinityBits ↔ 2 ^ 1024 - 2 ^ 970 ≤ (num / den : ℚ) := by
  have hodd : ¬ Even (infinityBits - 1) := by decide
  have hpred : infinityBits = infinityBits - 1 + 1 := rfl
  rw [ratioBits_eq, min_eq_right_iff, hpred, Nat.succ_le_iff,
    (roundsTo_ratio num hden).lt_iff_of_odd hodd, midpoint_infinityBits_pred,
    mul_le_mul_iff_of_pos_right unitsInOne_pos]

theorem ratioBits_le_ratioBits {num' den' : ℕ} (hden : 0 < den) (hden' : 0 < den')
    (hle : (num / den : ℚ) ≤ num' / den') : ratioBits num den ≤ ratioBits num' den' := by
  rw [ratioBits_eq, ratioBits_eq]
  refine min_le_min_right _ ((roundsTo_ratio num hden).mono (roundsTo_ratio num' hden') ?_)
  exact mul_le_mul_of_nonneg_right hle unitsInOne_pos.le

/-- Below that midpoint a fraction is rounded to the nearest finite number. -/
theorem isNearestEven_ofRatio (hden : 0 < den) (hlt : (num / den : ℚ) < 2 ^ 1024 - 2 ^ 970) :
    (ofRatio num den).IsNearestEven (num / den) := by
  have hround := roundsTo_ratio num hden
  have hmagnitude := magnitude_ofRatio num den
  have hfinite : (ofRatio num den).IsFinite := by
    refine lt_of_le_of_ne ?_ fun heq ↦ hlt.not_ge ?_
    · exact hmagnitude.trans_le (ratioBits_le_infinityBits num den)
    · exact (ratioBits_eq_infinityBits_iff num hden).mp (hmagnitude.symm.trans heq)
  have hpattern : (ofRatio num den).magnitude = quotientPattern (num <<< 1074) den := by
    rw [IsFinite, hmagnitude, ratioBits_eq, min_lt_iff] at hfinite
    rw [hmagnitude, ratioBits_eq, min_eq_left (hfinite.resolve_right (lt_irrefl _)).le]
  rw [← hpattern] at hround
  exact .of_roundsTo (signBit_ofRatio num den) hfinite (by positivity) hround

/-- A fraction is rounded correctly, be it small or large. -/
theorem roundedFrom_ofRatio (hden : 0 < den) : (ofRatio num den).RoundedFrom (num / den) := by
  refine ⟨signBit_ofRatio num den, isNaN_ofRatio num den, ?_, isNearestEven_ofRatio num hden⟩
  rw [toNat_bits_ofRatio, ratioBits_eq_infinityBits_iff num hden]

theorem ofRatio_eq_ofRatio {num' den' : ℕ} (hden : 0 < den) (hden' : 0 < den')
    (heq : (num / den : ℚ) = num' / den') : ofRatio num den = ofRatio num' den' := by
  have hround := roundedFrom_ofRatio num hden
  rw [heq] at hround
  exact hround.unique (roundedFrom_ofRatio num' hden')

end Ratio

end PrefixParsing.Binary64
