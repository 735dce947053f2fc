import Mathlib.Data.List.Induction
import Mathlib.Data.Nat.Digits.Defs
import PrefixParsing.Proofs.Locality
import PrefixParsing.Proofs.Readings

/-!
# Integers are exact

An integer is read from the whole run of digits ahead, and its value is what the digits say, however
many they are and however many zeros stand in front. The only run of digits that is refused is one
whose value is beyond the largest integer. It is refused as a whole: no shorter run is tried, the
cursor stays, and the run is reported.

## Place value

The value of a run is specified by the places of its digits, each digit counting with its power of
ten (`placeValue`). The reading computes it from the front, so the two meet in an induction from the
back, where the last digit is the one of the units.
-/

namespace PrefixParsing

open Text

/-! ## Place value -/

/-- The value of a run of digits, each of them counted with the power of ten of its place. -/
def placeValue (digits : List Char) : ℕ :=
  Nat.ofDigits 10 (digits.reverse.map fun c ↦ c.toNat - '0'.toNat)

theorem placeValue_append (digits digits' : List Char) :
    placeValue (digits ++ digits') =
      placeValue digits' + 10 ^ digits'.length * placeValue digits := by
  rw [placeValue, placeValue, placeValue, List.reverse_append, List.map_append,
    Nat.ofDigits_append, List.length_map, List.length_reverse]

theorem placeValue_singleton (c : Char) : placeValue [c] = c.toNat - '0'.toNat :=
  Nat.ofDigits_singleton

theorem placeValue_replicate_zero (k : ℕ) : placeValue (List.replicate k '0') = 0 := by
  rw [placeValue, List.reverse_replicate, List.map_replicate]
  exact Nat.ofDigits_replicate_zero

theorem placeValue_replicate_append (k : ℕ) (digits : List Char) :
    placeValue (List.replicate k '0' ++ digits) = placeValue digits := by
  rw [placeValue_append, placeValue_replicate_zero, Nat.mul_zero, Nat.add_zero]

theorem placeValue_append_replicate (digits : List Char) (k : ℕ) :
    placeValue (digits ++ List.replicate k '0') = 10 ^ k * placeValue digits := by
  rw [placeValue_append, placeValue_replicate_zero, List.length_replicate, Nat.zero_add]

theorem digitsValue_eq_placeValue (digits : List Char) :
    digitsValue digits = placeValue digits := by
  induction digits using List.reverseRecOn with
  | nil => rfl
  | append_singleton digits c ih =>
    rw [placeValue_append, placeValue_singleton, List.length_singleton, Nat.pow_one, ← ih,
      digitsValue, Nat.ofDigitChars_append, Nat.ofDigitChars_cons, Nat.ofDigitChars_nil,
      ← digitsValue, Nat.add_comm]

theorem placeValue_toDigits (n : ℕ) : placeValue (Nat.toDigits 10 n) = n := by
  rw [← digitsValue_eq_placeValue, digitsValue, Nat.ofDigitChars_ten_toDigits]

theorem isDigit_of_mem_replicate_zero (k : ℕ) : ∀ c ∈ List.replicate k '0', c.isDigit = true :=
  List.forall_mem_replicate.mpr (.inr rfl)

theorem utf8Size_of_isDigit {c : Char} (h : c.isDigit = true) : c.utf8Size = 1 := by
  rw [Char.isDigit, Bool.and_eq_true, decide_eq_true_iff, decide_eq_true_iff] at h
  exact Char.utf8Size_eq_one_iff.mpr (UInt32.le_trans h.2 (by decide))

theorem byteSize_eq_length {digits : List Char} (h : ∀ c ∈ digits, c.isDigit = true) :
    byteSize digits = digits.length :=
  byteSize_of_utf8Size_eq_one fun c hc ↦ utf8Size_of_isDigit (h c hc)

/-! ## Reading an integer -/

/-- What an integer is read from is decided by the run of digits alone. -/
theorem Reading.integer_of_isLeadingRun {run rest : List Char}
    (h : IsLeadingRun Char.isDigit run rest) :
    Reading.integer (run ++ rest) =
      if run = [] then .missing none
      else if placeValue run ≤ 2 ^ 63 - 1 then .found run (placeValue run)
      else .missing (some (.integerTooLarge (String.ofList run))) := by
  rw [Reading.integer, leadingRun_append h, digitsValue_eq_placeValue]
  simp only [List.isEmpty_iff]
  rfl

theorem isLeadingRun_takeWhile (accept : Char → Bool) (text : List Char) :
    IsLeadingRun accept (text.takeWhile accept) (text.dropWhile accept) := by
  refine isLeadingRun_of_leadingRun_eq ?_
  rw [leadingRun_eq_takeWhile, List.takeWhile_append_dropWhile]

namespace Parser

theorem yields_integer {run rest : List Char} (h : IsLeadingRun Char.isDigit run rest)
    (hne : run ≠ []) (hvalue : placeValue run ≤ 2 ^ 63 - 1) :
    integer.run.Yields (run ++ rest) (some (placeValue run : Int)) run rest [] := by
  refine Scan.yields_read_of_found ?_
  rw [Reading.integer_of_isLeadingRun h, if_neg hne, if_pos hvalue]

/-- What an integer parser does at any cursor, by the run of digits ahead. -/
theorem run_integer_eq {c : Cursor} (hc : c.InBounds) :
    integer.run c =
      let digits := c.rest.takeWhile Char.isDigit
      if digits = [] then ⟨none, c, []⟩
      else if placeValue digits ≤ 2 ^ 63 - 1 then
        ⟨some (placeValue digits : Int), ⟨c.source, c.offset + digits.length⟩, []⟩
      else ⟨none, c, [.integerTooLarge (String.ofList digits)]⟩ := by
  have hrun := isLeadingRun_takeWhile Char.isDigit c.rest
  have hrest : c.rest = c.rest.takeWhile Char.isDigit ++ c.rest.dropWhile Char.isDigit :=
    List.takeWhile_append_dropWhile.symm
  have hread := Reading.integer_of_isLeadingRun hrun
  rw [← hrest] at hread
  have hsize := byteSize_eq_length hrun.accepted
  generalize c.rest.takeWhile Char.isDigit = digits at *
  show Scan.read Reading.integer c = _
  by_cases hempty : digits = []
  · rw [if_pos hempty] at hread
    rw [Scan.read_apply_of_missing hread, if_pos hempty]
    rfl
  · rw [if_neg hempty] at hread
    by_cases hvalue : placeValue digits ≤ 2 ^ 63 - 1
    · rw [if_pos hvalue] at hread
      rw [Scan.read_apply_of_found hread, hc.bump_eq hrest, hsize, if_neg hempty, if_pos hvalue]
    · rw [if_neg hvalue] at hread
      rw [Scan.read_apply_of_missing hread, if_neg hempty, if_neg hvalue]
      rfl

/-- Whatever stands behind the digits, a number is read back from its decimal digits. -/
theorem runOn_integer_toString {n : ℕ} (hn : n ≤ 2 ^ 63 - 1) (k : ℕ) {t : String}
    (ht : ∀ x, t.toList.head? = some x → x.isDigit = false) :
    integer.runOn (String.ofList (List.replicate k '0') ++ toString n ++ t) =
      (some (n : Int), t) := by
  have hrun : IsLeadingRun Char.isDigit (List.replicate k '0' ++ Nat.toDigits 10 n) t.toList := by
    refine ⟨List.forall_mem_append.mpr ⟨isDigit_of_mem_replicate_zero k, fun x hx ↦ ?_⟩, ht⟩
    exact Nat.isDigit_of_mem_toDigits (by decide) (by decide) hx
  have hne : List.replicate k '0' ++ Nat.toDigits 10 n ≠ [] :=
    List.append_ne_nil_of_right_ne_nil _ Nat.toDigits_ne_nil
  have hvalue : placeValue (List.replicate k '0' ++ Nat.toDigits 10 n) = n := by
    rw [placeValue_replicate_append, placeValue_toDigits]
  have hyields := yields_integer hrun hne (hvalue.symm ▸ hn)
  have htext : (String.ofList (List.replicate k '0') ++ toString n ++ t).toList =
      (List.replicate k '0' ++ Nat.toDigits 10 n) ++ t.toList := by
    rw [String.toList_append, String.toList_append, String.toList_ofList,
      Nat.toString_eq_ofList_toDigits, String.toList_ofList]
  rw [← htext, hvalue] at hyields
  rw [runOn_eq hyields, String.ofList_toList]

/-- **Integers are exact.** An integer is read exactly if there is a digit ahead and the value of
all the digits ahead is at most the largest integer. Then it is that value, and the cursor is past
the digits. Otherwise the cursor stays, and the digits are reported if there are any. So every
number is read back from its decimal digits with any zeros in front. -/
theorem integer_exact :
    (∀ c : Cursor, c.InBounds →
      let digits := c.remaining.toList.takeWhile Char.isDigit
      ((∃ v, (integer.run c).output = some v) ↔
        digits ≠ [] ∧ placeValue digits ≤ 2 ^ 63 - 1) ∧
      (∀ v, (integer.run c).output = some v → v = (placeValue digits : Int) ∧
        (integer.run c).cursor = ⟨c.source, c.offset + digits.length⟩ ∧
        (integer.run c).events = []) ∧
      ((integer.run c).output = none → (integer.run c).cursor = c ∧
        (integer.run c).events =
          if digits = [] then [] else [.integerTooLarge (String.ofList digits)])) ∧
    (∀ digits, (Event.integerTooLarge digits).level = .debug ∧
      ("digits", .text digits) ∈ (Event.integerTooLarge digits).fields) ∧
    ∀ (n k : ℕ) (t : String), n ≤ 2 ^ 63 - 1 →
      (∀ x, t.toList.head? = some x → x.isDigit = false) →
      integer.runOn (String.ofList (List.replicate k '0') ++ toString n ++ t) =
        (some (n : Int), t) := by
  refine ⟨fun c hc ↦ ?_, fun digits ↦ ⟨rfl, List.mem_cons_self⟩, fun n k t hn ht ↦
    runOn_integer_toString hn k ht⟩
  rw [run_integer_eq hc, Cursor.remaining, String.toList_ofList]
  generalize c.rest.takeWhile Char.isDigit = digits
  dsimp only
  have hmissing : ¬ ∃ v, (none : Option Int) = some v := by
    rintro ⟨v, h⟩
    cases h
  by_cases hempty : digits = []
  · rw [if_pos hempty, if_pos hempty]
    refine ⟨iff_of_false hmissing fun h ↦ h.1 hempty, fun v hv ↦ absurd ⟨v, hv⟩ hmissing,
      fun _ ↦ ?_⟩
    exact ⟨rfl, rfl⟩
  · by_cases hvalue : placeValue digits ≤ 2 ^ 63 - 1
    · rw [if_neg hempty, if_neg hempty, if_pos hvalue]
      refine ⟨iff_of_true ⟨_, rfl⟩ ⟨hempty, hvalue⟩, fun v hv ↦ ?_, fun hnone ↦ ?_⟩
      · exact ⟨(Option.some.inj hv).symm, rfl, rfl⟩
      · cases hnone
    · rw [if_neg hempty, if_neg hempty, if_neg hvalue]
      refine ⟨iff_of_false hmissing fun h ↦ hvalue h.2, fun v hv ↦ absurd ⟨v, hv⟩ hmissing,
        fun _ ↦ ?_⟩
      exact ⟨rfl, rfl⟩

/-- In the middle of a text with characters of two bytes, a number too large behind a zero is
refused; and the largest one is read with two zeros in front. -/
theorem integer_exact_largest :
    (⟨"é09223372036854775808°", 2⟩ : Cursor).InBounds ∧
      (integer.run ⟨"é09223372036854775808°", 2⟩).output = none ∧
      (integer.run ⟨"é09223372036854775808°", 2⟩).events =
        [.integerTooLarge "09223372036854775808"] ∧
      integer.runOn ("00" ++ "9223372036854775807" ++ "° 1") =
        (some 9223372036854775807, "° 1") := by
  have hbounds : (⟨"é09223372036854775808°", 2⟩ : Cursor).InBounds := by
    show 2 ≤ "é09223372036854775808°".utf8ByteSize
    decide +kernel
  have hnone : (integer.run ⟨"é09223372036854775808°", 2⟩).output = none := by decide +kernel
  obtain ⟨hrun, -, hroundtrip⟩ := integer_exact
  have hdigits : (⟨"é09223372036854775808°", 2⟩ : Cursor).remaining.toList.takeWhile Char.isDigit =
      "09223372036854775808".toList := by decide +kernel
  have hevents := ((hrun _ hbounds).2.2 hnone).2
  rw [hdigits, if_neg (by decide +kernel), String.ofList_toList] at hevents
  have hlargest := hroundtrip (2 ^ 63 - 1) 2 "° 1" (Nat.le_refl _) fun x hx ↦ by
    obtain rfl : '°' = x := Option.some.inj hx
    rfl
  exact ⟨hbounds, hnone, hevents, hlargest⟩

end Parser

end PrefixParsing
