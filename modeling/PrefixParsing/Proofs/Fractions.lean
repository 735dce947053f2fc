import PrefixParsing.Proofs.Integers
import PrefixParsing.Proofs.Lookahead
import PrefixParsing.Proofs.Rounding

/-!
# Fractions are rounded correctly

A run of digits with at most one point denotes a fraction (`Denotes`): what stands before the point
counts by its place value, and what stands behind it by its place value over a power of ten. The
number that is read from the run is what that fraction is rounded to, however long the run is.

So the number depends on the fraction alone, and not on how it is written: zeros in front, zeros
behind the point and a point at the end do not matter. And of two runs the one that denotes more is
not read as less.
-/

namespace PrefixParsing

open Text

/-! ## The fraction that a run denotes -/

/-- A run of digits with at most one point denotes a fraction, if there is a digit. -/
inductive Denotes : List Char → ℚ → Prop
  /-- Without a point, the run is a natural number. -/
  | whole {digits : List Char} (hdigits : ∀ c ∈ digits, c.isDigit = true) (hne : digits ≠ []) :
    Denotes digits (placeValue digits)
  /-- The digits behind the point count as many powers of ten less as there are of them. -/
  | point {digits places : List Char} (hdigits : ∀ c ∈ digits, c.isDigit = true)
    (hplaces : ∀ c ∈ places, c.isDigit = true) (hne : digits ++ places ≠ []) :
    Denotes (digits ++ '.' :: places) (placeValue digits + placeValue places / 10 ^ places.length)

theorem point_notMem_of_isDigit {digits : List Char} (h : ∀ c ∈ digits, c.isDigit = true) :
    '.' ∉ digits := fun hmem ↦ absurd (h '.' hmem) (by decide)

theorem isDigit_of_point_notMem {run : List Char} (h : ∀ c ∈ run, Reading.isFractionChar c = true)
    (hpoint : '.' ∉ run) : ∀ c ∈ run, c.isDigit = true := by
  intro c hc
  have hor := h c hc
  rw [Reading.isFractionChar, Bool.or_eq_true, beq_iff_eq] at hor
  exact hor.resolve_right fun heq ↦ hpoint (heq ▸ hc)

theorem exists_denotes {run : List Char} (h : ∀ c ∈ run, Reading.isFractionChar c = true)
    (hdigit : ∃ c ∈ run, c.isDigit = true) (hpoints : run.count '.' ≤ 1) : ∃ q, Denotes run q := by
  by_cases hmem : '.' ∈ run
  · obtain ⟨digits, places, rfl, hdigits⟩ := List.eq_append_cons_of_mem hmem
    rw [List.count_append, List.count_cons_self] at hpoints
    have hplaces : '.' ∉ places := List.count_eq_zero.mp (by omega)
    have hne : digits ++ places ≠ [] := by
      intro hnil
      obtain ⟨c, hc, hcdigit⟩ := hdigit
      have hnone := (Decimal.forall_not_isDigit_append_point_iff h hdigits hplaces).mpr
        (List.append_eq_nil_iff.mp hnil)
      exact Bool.noConfusion (hcdigit.symm.trans (hnone c hc))
    simp only [List.mem_append, List.mem_cons] at h
    exact ⟨_, .point (isDigit_of_point_notMem (fun c hc ↦ h c (.inl hc)) hdigits)
      (isDigit_of_point_notMem (fun c hc ↦ h c (.inr (.inr hc))) hplaces) hne⟩
  · obtain ⟨c, hc, -⟩ := hdigit
    exact ⟨_, .whole (isDigit_of_point_notMem h hmem) (List.ne_nil_of_mem hc)⟩

namespace Denotes

variable {run : List Char} {q q' : ℚ}

/-- A run is taken apart at its point, and its numerator and denominator make up the fraction. -/
theorem exists_decimal (h : Denotes run q) :
    ∃ d, Decimal.ofRun? run = some d ∧ (d.numerator / d.denominator : ℚ) = q := by
  cases h with
  | whole hdigits hne =>
    refine ⟨⟨run, []⟩, ?_, ?_⟩
    · rw [Decimal.ofRun?_of_notMem (point_notMem_of_isDigit hdigits), if_neg hne]
    · rw [Decimal.numerator, Decimal.denominator, List.append_nil, digitsValue_eq_placeValue]
      exact div_one _
  | @point digits places hdigits hplaces hne =>
    refine ⟨⟨digits, places⟩, ?_, ?_⟩
    · rw [Decimal.ofRun?_append_point (point_notMem_of_isDigit hdigits), if_neg]
      rintro (hmem | hempty)
      · exact point_notMem_of_isDigit hplaces hmem
      · exact hne (List.append_eq_nil_iff.mpr hempty)
    · have hpow : (10 ^ places.length : ℚ) ≠ 0 := pow_ne_zero _ (by norm_num)
      rw [Decimal.numerator, Decimal.denominator, digitsValue_eq_placeValue, placeValue_append,
        Nat.pow_eq, Nat.cast_add, Nat.cast_mul, Nat.cast_pow, Nat.cast_ofNat, add_div,
        mul_div_cancel_left₀ _ hpow, add_comm]

theorem unique (h : Denotes run q) (h' : Denotes run q') : q = q' := by
  obtain ⟨d, hd, rfl⟩ := h.exists_decimal
  obtain ⟨d', hd', rfl⟩ := h'.exists_decimal
  obtain rfl := Option.some.inj (hd.symm.trans hd')
  rfl

theorem nonneg (h : Denotes run q) : 0 ≤ q := by
  cases h <;> positivity

theorem ne_nil (h : Denotes run q) : run ≠ [] := by
  cases h with
  | whole hdigits hne => exact hne
  | point hdigits hplaces hne => exact List.append_ne_nil_of_right_ne_nil _ (List.cons_ne_nil _ _)

theorem isFractionChar (h : Denotes run q) : ∀ c ∈ run, Reading.isFractionChar c = true := by
  cases h with
  | whole hdigits hne => exact fun c hc ↦ Reading.isFractionChar_of_isDigit c (hdigits c hc)
  | point hdigits hplaces hne =>
    refine List.forall_mem_append.mpr ⟨fun c hc ↦ ?_, List.forall_mem_cons.mpr ⟨rfl, fun c hc ↦ ?_⟩⟩
    · exact Reading.isFractionChar_of_isDigit c (hdigits c hc)
    · exact Reading.isFractionChar_of_isDigit c (hplaces c hc)

/-! ### Writing a fraction in another way -/

theorem replicate_append (h : Denotes run q) (k : ℕ) : Denotes (List.replicate k '0' ++ run) q := by
  have hzeros := isDigit_of_mem_replicate_zero k
  cases h with
  | whole hdigits hne =>
    rw [← placeValue_replicate_append k]
    exact .whole (List.forall_mem_append.mpr ⟨hzeros, hdigits⟩)
      (List.append_ne_nil_of_right_ne_nil _ hne)
  | @point digits places hdigits hplaces hne =>
    rw [← placeValue_replicate_append k digits, ← List.append_assoc]
    refine .point (List.forall_mem_append.mpr ⟨hzeros, hdigits⟩) hplaces ?_
    rw [List.append_assoc]
    exact List.append_ne_nil_of_right_ne_nil _ hne

theorem append_replicate (h : Denotes run q) (hpoint : '.' ∈ run) (k : ℕ) :
    Denotes (run ++ List.replicate k '0') q := by
  have hzeros := isDigit_of_mem_replicate_zero k
  cases h with
  | whole hdigits hne => exact absurd hpoint (point_notMem_of_isDigit hdigits)
  | @point digits places hdigits hplaces hne =>
    have hvalue : (placeValue places / 10 ^ places.length : ℚ) =
        placeValue (places ++ List.replicate k '0') /
          10 ^ (places ++ List.replicate k '0').length := by
      rw [placeValue_append_replicate, List.length_append, List.length_replicate, pow_add,
        mul_comm ((10 : ℚ) ^ places.length), Nat.cast_mul, Nat.cast_pow, Nat.cast_ofNat,
        mul_div_mul_left _ _ (pow_ne_zero k (by norm_num))]
    rw [hvalue, List.append_assoc, List.cons_append]
    refine .point hdigits (List.forall_mem_append.mpr ⟨hplaces, hzeros⟩) ?_
    rw [← List.append_assoc]
    exact List.append_ne_nil_of_left_ne_nil hne _

theorem append_point (h : Denotes run q) (hpoint : '.' ∉ run) : Denotes (run ++ ['.']) q := by
  cases h with
  | whole hdigits hne =>
    have hpointed := Denotes.point hdigits (List.forall_mem_nil _)
      (List.append_ne_nil_of_left_ne_nil hne [])
    rwa [show placeValue [] = 0 from rfl, Nat.cast_zero, zero_div, add_zero] at hpointed
  | point hdigits hplaces hne =>
    exact absurd (List.mem_append_right _ List.mem_cons_self) hpoint

end Denotes

/-! ## Reading a fraction -/

theorem Reading.float_of_denotes {run rest : List Char} {q : ℚ} (h : Denotes run q)
    (hrun : IsLeadingRun isFractionChar run rest) :
    ∃ num den : ℕ, 0 < den ∧ (num / den : ℚ) = q ∧
      Reading.float (run ++ rest) = .found run (Binary64.ofRatio num den) := by
  obtain ⟨d, hd, hq⟩ := h.exists_decimal
  refine ⟨d.numerator, d.denominator, d.denominator_pos, hq, ?_⟩
  rw [Reading.float, leadingRun_append hrun]
  simp only [List.isEmpty_iff, h.ne_nil, if_false, hd]

namespace Parser

/-- A run is read as what its fraction is rounded to, whatever stands behind it. -/
theorem runOn_float_of_denotes {r t : String} {q : ℚ} (h : Denotes r.toList q)
    (hrun : IsLeadingRun Reading.isFractionChar r.toList t.toList) :
    ∃ num den : ℕ, 0 < den ∧ (num / den : ℚ) = q ∧
      float.runOn (r ++ t) = (some (Binary64.ofRatio num den), t) := by
  obtain ⟨num, den, hden, hq, hread⟩ := Reading.float_of_denotes h hrun
  refine ⟨num, den, hden, hq, ?_⟩
  have hyields : float.run.Yields (r ++ t).toList (some (Binary64.ofRatio num den)) r.toList
      t.toList [] := by
    rw [String.toList_append]
    exact Scan.yields_read_of_found hread
  rw [runOn_eq hyields, String.ofList_toList]

theorem runOn_float_alone {r : String} {q : ℚ} (h : Denotes r.toList q) :
    ∃ num den : ℕ, 0 < den ∧ (num / den : ℚ) = q ∧
      float.runOn r = (some (Binary64.ofRatio num den), "") := by
  have hrun : IsLeadingRun Reading.isFractionChar r.toList "".toList :=
    ⟨h.isFractionChar, fun _ hx ↦ nomatch hx⟩
  have hread := runOn_float_of_denotes h hrun
  rwa [String.append_empty] at hread

/-- Two runs that denote the same fraction are read as the same number. -/
theorem runOn_float_eq {r r' : String} {q : ℚ} (h : Denotes r.toList q) (h' : Denotes r'.toList q) :
    float.runOn r' = float.runOn r := by
  obtain ⟨num, den, hden, hq, hread⟩ := runOn_float_alone h
  obtain ⟨num', den', hden', hq', hread'⟩ := runOn_float_alone h'
  rw [hread, hread', Binary64.ofRatio_eq_ofRatio num' hden' hden (hq'.trans hq.symm)]

/-- **Fractions are rounded correctly.** A run of digits with at most one point, and a digit
somewhere, denotes one fraction, and it is read as what that fraction is rounded to. So two runs
that denote the same fraction are read as the same number, a larger fraction is not read as a
smaller number, and zeros in front, zeros behind the point and a point at the end do not matter. -/
theorem float_correctly_rounded :
    (∀ r t : String, IsLeadingRun Reading.isFractionChar r.toList t.toList →
      (∃ c ∈ r.toList, c.isDigit = true) → r.toList.count '.' ≤ 1 →
      ∃ q x, Denotes r.toList q ∧ (∀ q', Denotes r.toList q' → q' = q) ∧ 0 ≤ q ∧
        float.runOn (r ++ t) = (some x, t) ∧ x.RoundedFrom q) ∧
    (∀ (r r' : String) (q q' : ℚ), Denotes r.toList q → Denotes r'.toList q' →
      ∃ x x', float.runOn r = (some x, "") ∧ float.runOn r' = (some x', "") ∧
        (q = q' → x = x') ∧ (q ≤ q' → x.bits ≤ x'.bits)) ∧
    ∀ (r : String) (q : ℚ) (k : ℕ), Denotes r.toList q →
      let zeros := String.ofList (List.replicate k '0')
      float.runOn (zeros ++ r) = float.runOn r ∧
      ('.' ∈ r.toList → float.runOn (r ++ zeros) = float.runOn r) ∧
      ('.' ∉ r.toList → float.runOn (r ++ ".") = float.runOn r) := by
  refine ⟨fun r t hrun hdigit hpoints ↦ ?_, fun r r' q q' h h' ↦ ?_, fun r q k h ↦ ?_⟩
  · obtain ⟨q, h⟩ := exists_denotes hrun.accepted hdigit hpoints
    obtain ⟨num, den, hden, rfl, hread⟩ := runOn_float_of_denotes h hrun
    exact ⟨_, _, h, fun q' h' ↦ h'.unique h, h.nonneg, hread,
      Binary64.roundedFrom_ofRatio num hden⟩
  · obtain ⟨num, den, hden, rfl, hread⟩ := runOn_float_alone h
    obtain ⟨num', den', hden', rfl, hread'⟩ := runOn_float_alone h'
    refine ⟨_, _, hread, hread', Binary64.ofRatio_eq_ofRatio num hden hden', fun hle ↦ ?_⟩
    rw [UInt64.le_iff_toNat_le, Binary64.toNat_bits_ofRatio, Binary64.toNat_bits_ofRatio]
    exact Binary64.ratioBits_le_ratioBits num hden hden' hle
  · refine ⟨runOn_float_eq h ?_, fun hpoint ↦ runOn_float_eq h ?_,
      fun hpoint ↦ runOn_float_eq h ?_⟩
    · rw [String.toList_append, String.toList_ofList]
      exact h.replicate_append k
    · rw [String.toList_append, String.toList_ofList]
      exact h.append_replicate hpoint k
    · rw [String.toList_append]
      exact h.append_point hpoint

/-- Halfway between two numbers, `2 ^ 53 + 1` is read as the even one below, also with a zero in
front and a point at the end. -/
theorem float_correctly_rounded_halfway :
    Denotes "09007199254740993.".toList 9007199254740993 ∧
      (⟨0x4340000000000000⟩ : Binary64).RoundedFrom 9007199254740993 ∧
      float.runOn ("09007199254740993." ++ "° N") = (some ⟨0x4340000000000000⟩, "° N") ∧
      float.runOn "9007199254740993" = float.runOn "09007199254740993" := by
  obtain ⟨hread, -, hrewrite⟩ := float_correctly_rounded
  have hvalue : placeValue "9007199254740993".toList = 9007199254740993 := by
    rw [← digitsValue_eq_placeValue]
    decide +kernel
  have hwhole : Denotes "9007199254740993".toList 9007199254740993 := by
    have hplace : Denotes "9007199254740993".toList _ :=
      .whole (List.all_eq_true.mp (by decide)) (by decide)
    rwa [hvalue] at hplace
  have hdenotes : Denotes "09007199254740993.".toList 9007199254740993 :=
    (hwhole.replicate_append 1).append_point (by decide)
  have hrun : IsLeadingRun Reading.isFractionChar "09007199254740993.".toList "° N".toList :=
    ⟨hdenotes.isFractionChar, fun x hx ↦ by
      obtain rfl : '°' = x := Option.some.inj hx
      rfl⟩
  obtain ⟨q, x, -, hunique, -, hx, hround⟩ := hread _ _ hrun ⟨'9', by decide, rfl⟩ (by decide)
  obtain rfl := hunique _ hdenotes
  have heval : float.runOn ("09007199254740993." ++ "° N") =
      (some ⟨0x4340000000000000⟩, "° N") := by decide +kernel
  obtain rfl := Option.some.inj (Prod.mk.inj (hx.symm.trans heval)).1
  exact ⟨hdenotes, hround, heval, (hrewrite "9007199254740993" _ 1 hwhole).1.symm⟩

end Parser

end PrefixParsing
