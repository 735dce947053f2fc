import Mathlib.Algebra.Order.Field.Rat
import Mathlib.Algebra.Ring.Parity
import Mathlib.Data.Nat.Cast.Order.Field
import Mathlib.Order.Monotone.Basic
import Mathlib.Tactic.Linarith
import Mathlib.Tactic.Positivity
import Mathlib.Tactic.Ring
import PrefixParsing.Binary64

/-!
# Patterns and midpoints

The finite numbers without a sign are counted in units of the least positive one, and their
patterns are in the order of the numbers. Nothing in this needs the exponent to be bounded. So
rounding is looked at first with patterns that go on forever (`units`), where infinity's pattern
is that of the next power of two. The cut at infinity is then a question about one more midpoint.

## Rounding intervals

Which pattern is nearest depends on its two neighbours only: the number to be rounded lies between
the midpoints to these, and on one of them only if the pattern is even (`RoundsTo`). That no other
pattern is nearer (`RoundsTo.nearest`), that rounding is monotone (`RoundsTo.mono`) and where
infinity begins (`RoundsTo.lt_iff_of_odd`) all follow from the order of the midpoints.

## Rounded quotients

The rounded quotient is at most one half away from the exact one. With `s` bits dropped, that is
half the distance to the neighbours, except below a power of two, where the numbers are closer
together. A significand that is a power of two has been rounded down, though, so the midpoint below
it is not reached.
-/

namespace PrefixParsing.Binary64

/-! ## Rounding a quotient to an integer -/

theorem abs_sub_roundDiv {n d : ℕ} (hd : 0 < d) :
    |(n / d : ℚ) - roundDiv n d| ≤ 1 / 2 ∧
      (|(n / d : ℚ) - roundDiv n d| = 1 / 2 → Even (roundDiv n d)) := by
  have hd' : (0 : ℚ) < d := Nat.cast_pos.mpr hd
  have hquotient : (n / d : ℚ) = (n / d : ℕ) + (n % d : ℕ) / d := by
    rw [eq_comm, ← mul_div_cancel_left₀ ((n / d : ℕ) : ℚ) hd'.ne', ← add_div, ← Nat.cast_mul,
      ← Nat.cast_add, Nat.div_add_mod]
  rw [hquotient, roundDiv]
  have hlower : (0 : ℚ) ≤ (n % d : ℕ) / d := by positivity
  have hupper : ((n % d : ℕ) : ℚ) / d < 1 :=
    (div_lt_one hd').mpr (Nat.cast_lt.mpr (Nat.mod_lt n hd))
  rcases lt_trichotomy (2 * (n % d)) d with hlt | heq | hgt
  · have hhalf : ((n % d : ℕ) : ℚ) / d < 1 / 2 := by
      rw [div_lt_div_iff₀ hd' two_pos, one_mul, mul_comm]
      exact_mod_cast hlt
    rw [if_pos hlt, add_sub_cancel_left, abs_of_nonneg hlower]
    exact ⟨hhalf.le, fun h ↦ absurd h hhalf.ne⟩
  · have hhalf : ((n % d : ℕ) : ℚ) / d = 1 / 2 := by
      rw [div_eq_div_iff hd'.ne' two_ne_zero, one_mul, mul_comm]
      exact_mod_cast heq
    rw [if_neg heq.not_lt, if_neg heq.not_gt, hhalf]
    rcases Nat.mod_two_eq_zero_or_one (n / d) with heven | hodd
    · rw [heven, Nat.add_zero, add_sub_cancel_left, abs_of_pos one_half_pos]
      exact ⟨le_rfl, fun _ ↦ Nat.even_iff.mpr heven⟩
    · rw [hodd, Nat.cast_add, Nat.cast_one, add_sub_add_left_eq_sub, abs_of_neg (by norm_num)]
      exact ⟨by norm_num, fun _ ↦ Nat.even_add_one.mpr (Nat.not_even_iff.mpr hodd)⟩
  · have hhalf : 1 / 2 < ((n % d : ℕ) : ℚ) / d := by
      rw [div_lt_div_iff₀ two_pos hd', one_mul, mul_comm]
      exact_mod_cast hgt
    rw [if_neg hgt.not_gt, if_pos hgt, Nat.cast_add, Nat.cast_one, add_sub_add_left_eq_sub,
      abs_of_neg (by linarith)]
    exact ⟨by linarith, fun h ↦ absurd h (by linarith)⟩

theorem roundDiv_bounds (n d : ℕ) : n / d ≤ roundDiv n d ∧ roundDiv n d ≤ n / d + 1 := by
  dsimp only [roundDiv]
  split_ifs <;> omega

/-! ## Patterns without an end -/

/-- The significand of a pattern: fifty-two stored bits, and a leading one if there is an
exponent. -/
def significand (pattern : ℕ) : ℕ :=
  if pattern / 2 ^ 52 = 0 then pattern % 2 ^ 52 else 2 ^ 52 + pattern % 2 ^ 52

/-- The number with a pattern, in units of the least positive one. The exponents zero and one have
the same scale. -/
def units (pattern : ℕ) : ℕ := significand pattern * 2 ^ (pattern / 2 ^ 52 - 1)

/-- A significand `m` for `s` dropped bits. It has all fifty-three bits if any are dropped, and
may be the power of two above them. -/
structure IsScaled (s m : ℕ) : Prop where
  le : m ≤ 2 ^ 53
  full : s = 0 ∨ 2 ^ 52 ≤ m

theorem units_of_isScaled {s m : ℕ} (h : IsScaled s m) : units (s * 2 ^ 52 + m) = m * 2 ^ s := by
  obtain ⟨hle, hfull⟩ := h
  rw [units, significand]
  rcases Nat.lt_or_ge m (2 ^ 52) with hsmall | hlarge
  · obtain rfl : s = 0 := hfull.resolve_right hsmall.not_ge
    rw [Nat.zero_mul, Nat.zero_add, Nat.div_eq_of_lt hsmall, Nat.mod_eq_of_lt hsmall, if_pos rfl]
  · rcases hle.lt_or_eq with hlt | rfl
    · have hdiv : (s * 2 ^ 52 + m) / 2 ^ 52 = s + 1 := by omega
      have hmod : 2 ^ 52 + (s * 2 ^ 52 + m) % 2 ^ 52 = m := by omega
      rw [hdiv, if_neg s.succ_ne_zero, hmod, Nat.add_sub_cancel]
    · have hdiv : (s * 2 ^ 52 + 2 ^ 53) / 2 ^ 52 = s + 2 := by omega
      have hmod : (s * 2 ^ 52 + 2 ^ 53) % 2 ^ 52 = 0 := by omega
      rw [hdiv, if_neg (by omega), hmod, Nat.add_zero, Nat.add_sub_assoc (by omega), pow_add]
      ring

theorem exists_isScaled (pattern : ℕ) :
    ∃ s m, pattern = s * 2 ^ 52 + m ∧ m < 2 ^ 53 ∧ IsScaled s m := by
  refine ⟨pattern / 2 ^ 52 - 1, pattern - (pattern / 2 ^ 52 - 1) * 2 ^ 52, ?_, ?_, ?_, ?_⟩ <;> omega

theorem units_succ_of_isScaled {s m : ℕ} (h : IsScaled s m) (hlt : m < 2 ^ 53) :
    units (s * 2 ^ 52 + m + 1) = (m + 1) * 2 ^ s := by
  rw [Nat.add_assoc, units_of_isScaled ⟨hlt, h.full.imp_right Nat.le_succ_of_le⟩]

theorem units_strictMono : StrictMono units := by
  refine strictMono_nat_of_lt_succ fun pattern ↦ ?_
  obtain ⟨s, m, rfl, hlt, hscaled⟩ := exists_isScaled pattern
  rw [units_of_isScaled hscaled, units_succ_of_isScaled hscaled hlt]
  exact Nat.mul_lt_mul_of_pos_right m.lt_succ_self (Nat.two_pow_pos s)

/-! ## Midpoints -/

/-- The number halfway between a pattern's number and the next. -/
def midpoint (pattern : ℕ) : ℚ := (units pattern + units (pattern + 1)) / 2

theorem abs_sub_le_abs_sub_iff {u v w : ℚ} (h : v < w) :
    (|u - v| ≤ |u - w| ↔ u ≤ (v + w) / 2) ∧ (|u - w| ≤ |u - v| ↔ (v + w) / 2 ≤ u) := by
  have hpos : 0 < 2 * (w - v) := mul_pos two_pos (sub_pos.mpr h)
  have hdiff : (u - w) ^ 2 - (u - v) ^ 2 = 2 * (w - v) * ((v + w) / 2 - u) := by ring
  have hdiff' : (u - v) ^ 2 - (u - w) ^ 2 = 2 * (w - v) * (u - (v + w) / 2) := by ring
  constructor
  · rw [← sq_le_sq, ← sub_nonneg, hdiff, mul_nonneg_iff_of_pos_left hpos, sub_nonneg]
  · rw [← sq_le_sq, ← sub_nonneg, hdiff', mul_nonneg_iff_of_pos_left hpos, sub_nonneg]

theorem midpoint_strictMono : StrictMono midpoint := by
  intro a b hab
  have hle : (units (a + 1) : ℚ) ≤ units b := Nat.cast_le.mpr (units_strictMono.monotone hab)
  have ha : (units a : ℚ) < units (a + 1) := Nat.cast_lt.mpr (units_strictMono a.lt_succ_self)
  have hb : (units b : ℚ) < units (b + 1) := Nat.cast_lt.mpr (units_strictMono b.lt_succ_self)
  rw [midpoint, midpoint]
  linarith

theorem midpoint_of_isScaled {s m : ℕ} (h : IsScaled s m) (hlt : m < 2 ^ 53) :
    midpoint (s * 2 ^ 52 + m) = (m + 1 / 2) * 2 ^ s := by
  rw [midpoint, units_of_isScaled h, units_succ_of_isScaled h hlt]
  push_cast
  ring

/-- Where the significand has run over, the next number is farther away. -/
theorem le_midpoint_of_isScaled {s m : ℕ} (h : IsScaled s m) :
    (m + 1 / 2) * 2 ^ s ≤ midpoint (s * 2 ^ 52 + m) := by
  rcases h.le.lt_or_eq with hlt | rfl
  · exact (midpoint_of_isScaled h hlt).ge
  · have hcarried : s * 2 ^ 52 + 2 ^ 53 = (s + 1) * 2 ^ 52 + 2 ^ 52 := by omega
    rw [hcarried, midpoint_of_isScaled ⟨by omega, .inr le_rfl⟩ (by omega), pow_succ' 2 s,
      ← mul_assoc]
    exact mul_le_mul_of_nonneg_right (by norm_num) (by positivity)

/-- A number lies between the two midpoints beside a pattern, and on one of them only if the
pattern is even. -/
structure RoundsTo (u : ℚ) (pattern : ℕ) : Prop where
  le_midpoint : u ≤ midpoint pattern
  even_of_eq : u = midpoint pattern → Even pattern
  midpoint_le (below : ℕ) : below + 1 = pattern → midpoint below ≤ u
  even_of_midpoint_eq (below : ℕ) : below + 1 = pattern → midpoint below = u → Even pattern

namespace RoundsTo

variable {u u' : ℚ} {a b b' : ℕ}

theorem midpoint_le_of_lt (h : RoundsTo u b) (hab : a < b) : midpoint a ≤ u := by
  obtain ⟨below, rfl⟩ := Nat.exists_eq_add_one_of_ne_zero (Nat.ne_zero_of_lt hab)
  exact (midpoint_strictMono.monotone (Nat.le_of_lt_succ hab)).trans (h.midpoint_le below rfl)

/-- A larger number has no smaller pattern. If it had one, the two numbers were the same midpoint,
with an even pattern on either side. -/
theorem mono (h : RoundsTo u b) (h' : RoundsTo u' b') (hu : u ≤ u') : b ≤ b' := by
  by_contra hlt
  obtain ⟨a, rfl⟩ := Nat.exists_eq_add_one_of_ne_zero (Nat.ne_zero_of_lt (not_le.mp hlt))
  have hle : b' ≤ a := Nat.le_of_lt_succ (not_le.mp hlt)
  have hmid : midpoint b' ≤ midpoint a := midpoint_strictMono.monotone hle
  have hbelow : midpoint a ≤ u := h.midpoint_le a rfl
  have habove : u' ≤ midpoint b' := h'.le_midpoint
  obtain rfl : b' = a := midpoint_strictMono.injective (by linarith)
  have hsucc : Even (b' + 1) := h.even_of_midpoint_eq b' rfl (by linarith)
  exact Nat.even_add_one.mp hsucc (h'.even_of_eq (by linarith))

/-- From the midpoint above an odd pattern on a number is rounded to a larger pattern. -/
theorem lt_iff_of_odd (h : RoundsTo u b) (ha : ¬ Even a) : a < b ↔ midpoint a ≤ u := by
  refine ⟨h.midpoint_le_of_lt, fun hmid ↦ ?_⟩
  by_contra hle
  have hmono : midpoint b ≤ midpoint a := midpoint_strictMono.monotone (not_lt.mp hle)
  have habove : u ≤ midpoint b := h.le_midpoint
  obtain rfl : b = a := midpoint_strictMono.injective (by linarith)
  exact ha (h.even_of_eq (by linarith))

theorem nearest (h : RoundsTo u b) (b' : ℕ) :
    |u - units b| ≤ |u - units b'| ∧ (b' ≠ b → |u - units b'| = |u - units b| → Even b) := by
  rcases lt_trichotomy b' b with hlt | rfl | hgt
  · obtain ⟨below, rfl⟩ := Nat.exists_eq_add_one_of_ne_zero (Nat.ne_zero_of_lt hlt)
    have hunits : (units b' : ℚ) ≤ units below :=
      Nat.cast_le.mpr (units_strictMono.monotone (Nat.le_of_lt_succ hlt))
    have hbelow : midpoint below ≤ u := h.midpoint_le below rfl
    have hfar : (units b' + units (below + 1) : ℚ) / 2 ≤ midpoint below := by
      rw [midpoint]
      linarith
    have hcloser := abs_sub_le_abs_sub_iff (u := u) (Nat.cast_lt.mpr (units_strictMono hlt))
    refine ⟨hcloser.2.mpr (hfar.trans hbelow), fun _ htie ↦ h.even_of_midpoint_eq below rfl ?_⟩
    exact hbelow.antisymm ((hcloser.1.mp htie.le).trans hfar)
  · exact ⟨le_rfl, fun hne ↦ absurd rfl hne⟩
  · have hunits : (units (b + 1) : ℚ) ≤ units b' :=
      Nat.cast_le.mpr (units_strictMono.monotone hgt)
    have habove : u ≤ midpoint b := h.le_midpoint
    have hfar : midpoint b ≤ (units b + units b' : ℚ) / 2 := by
      rw [midpoint]
      linarith
    have hcloser := abs_sub_le_abs_sub_iff (u := u) (Nat.cast_lt.mpr (units_strictMono hgt))
    refine ⟨hcloser.1.mpr (habove.trans hfar), fun _ htie ↦ h.even_of_eq ?_⟩
    exact habove.antisymm (hfar.trans (hcloser.2.mp htie.le))

end RoundsTo

/-! ## The pattern of a fraction -/

theorem droppedBits_spec (u : ℕ) :
    u / 2 ^ droppedBits u < 2 ^ 53 ∧ (droppedBits u = 0 ∨ 2 ^ 52 ≤ u / 2 ^ droppedBits u) := by
  have hupper : u < 2 ^ (u.log2 + 1) := Nat.lt_log2_self
  rw [droppedBits, Nat.div_lt_iff_lt_mul (Nat.two_pow_pos _),
    Nat.le_div_iff_mul_le (Nat.two_pow_pos _), ← Nat.pow_add, ← Nat.pow_add]
  refine ⟨hupper.trans_le (Nat.pow_le_pow_right two_pos (by omega)), ?_⟩
  rcases Nat.lt_or_ge u.log2 52 with hsmall | hlarge
  · exact .inl (Nat.sub_eq_zero_of_le hsmall.le)
  · refine .inr ?_
    rw [Nat.add_sub_of_le hlarge]
    exact Nat.log2_self_le (by rintro rfl; exact absurd hlarge (by decide))

/-- The midpoint below is half a significand away, unless the numbers below are closer together. In
that case it is less than the power of two from which on they are not. -/
theorem lt_or_midpoint_eq_of_isScaled {u : ℚ} {s m below : ℕ} (h : IsScaled s m)
    (hu : s = 0 ∨ 2 ^ 52 * 2 ^ s ≤ u) (hsucc : below + 1 = s * 2 ^ 52 + m) :
    midpoint below < u ∨ midpoint below = (m - 1 / 2) * 2 ^ s := by
  by_cases hall : s = 0 ∨ 2 ^ 52 < m
  · obtain ⟨k, rfl⟩ : ∃ k, m = k + 1 := ⟨m - 1, by omega⟩
    obtain rfl : below = s * 2 ^ 52 + k := by omega
    have hk : IsScaled s k := ⟨Nat.le_of_succ_le h.le, hall.imp_right Nat.le_of_lt_succ⟩
    rw [midpoint_of_isScaled hk h.le]
    push_cast
    exact .inr (by ring)
  · obtain ⟨hs, hm⟩ := not_or.mp hall
    obtain rfl : m = 2 ^ 52 := le_antisymm (not_lt.mp hm) (h.full.resolve_left hs)
    have hlt : (units below : ℚ) < units (below + 1) :=
      Nat.cast_lt.mpr (units_strictMono below.lt_succ_self)
    have hunits : (units (below + 1) : ℚ) = 2 ^ 52 * 2 ^ s := by
      rw [hsucc, units_of_isScaled h]
      push_cast
      rfl
    have hge := hu.resolve_left hs
    rw [midpoint]
    exact .inl (by linarith)

/-- A number is rounded to a pattern by rounding its significand, if all the bits of this are used
or none had to be dropped. -/
theorem RoundsTo.of_isScaled {u : ℚ} {s m : ℕ} (h : IsScaled s m) (hu : s = 0 ∨ 2 ^ 52 * 2 ^ s ≤ u)
    (hnear : |u / 2 ^ s - m| ≤ 1 / 2) (heven : |u / 2 ^ s - m| = 1 / 2 → Even m) :
    RoundsTo u (s * 2 ^ 52 + m) := by
  have hpow : (0 : ℚ) < 2 ^ s := by positivity
  obtain ⟨hlower, hupper⟩ := abs_le.mp hnear
  have hupper : u ≤ (m + 1 / 2) * 2 ^ s := by
    rw [← div_le_iff₀ hpow]
    linarith
  have hlower : (m - 1 / 2) * 2 ^ s ≤ u := by
    rw [← le_div_iff₀ hpow]
    linarith
  have hpattern (hm : Even m) : Even (s * 2 ^ 52 + m) :=
    (Even.mul_left (by decide) s).add hm
  have hbelow {below : ℕ} (hsucc : below + 1 = s * 2 ^ 52 + m) :=
    lt_or_midpoint_eq_of_isScaled h hu hsucc
  refine ⟨hupper.trans (le_midpoint_of_isScaled h), fun heq ↦ hpattern (heven ?_),
    fun below hsucc ↦ ?_, fun below hsucc heq ↦ hpattern (heven ?_)⟩
  · have htie : u = (m + 1 / 2) * 2 ^ s :=
      hupper.antisymm ((le_midpoint_of_isScaled h).trans heq.ge)
    rw [htie, mul_div_cancel_right₀ _ hpow.ne', add_sub_cancel_left, abs_of_pos one_half_pos]
  · exact (hbelow hsucc).elim le_of_lt fun h ↦ h.trans_le hlower
  · have htie : u = (m - 1 / 2) * 2 ^ s := by
      rw [← heq]
      exact (hbelow hsucc).resolve_left (by rw [heq]; exact lt_irrefl u)
    rw [htie, mul_div_cancel_right₀ _ hpow.ne', sub_sub_cancel_left, abs_neg,
      abs_of_pos one_half_pos]

/-- A fraction's pattern if the exponents did not end. -/
def quotientPattern (n d : ℕ) : ℕ :=
  let s := droppedBits (n / d)
  (s <<< 52) + roundDiv n (d <<< s)

theorem roundsTo_quotientPattern (n : ℕ) {d : ℕ} (hd : 0 < d) :
    RoundsTo (n / d) (quotientPattern n d) := by
  rw [quotientPattern]
  obtain ⟨hbelow, hfull⟩ := droppedBits_spec (n / d)
  generalize droppedBits (n / d) = s at *
  obtain ⟨hnear, heven⟩ := abs_sub_roundDiv (n := n) (Nat.mul_pos hd (Nat.two_pow_pos s))
  have hquotient : (n / (d * 2 ^ s : ℕ) : ℚ) = n / d / 2 ^ s := by
    rw [Nat.cast_mul, Nat.cast_pow, Nat.cast_ofNat, div_div]
  obtain ⟨hlower, hupper⟩ := roundDiv_bounds n (d * 2 ^ s)
  rw [← Nat.div_div_eq_div_mul] at hlower hupper
  rw [hquotient] at hnear heven
  rw [Nat.shiftLeft_eq, Nat.shiftLeft_eq]
  refine .of_isScaled ⟨hupper.trans hbelow, hfull.imp_right hlower.trans'⟩ ?_ hnear heven
  refine hfull.imp_right fun hfull ↦ ?_
  have hle : 2 ^ 52 * 2 ^ s ≤ n / d := (Nat.le_div_iff_mul_le (Nat.two_pow_pos s)).mp hfull
  calc (2 ^ 52 * 2 ^ s : ℚ) ≤ (n / d : ℕ) := by exact_mod_cast hle
    _ ≤ n / d := Nat.cast_div_le

end PrefixParsing.Binary64
