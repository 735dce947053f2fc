import PrefixParsing.Proofs.Integers

/-!
# Which runs are read as fractions

A fraction is read from the whole run of digits and points ahead. The run is accepted if there is a
digit in it and at most one point. So `5.` and `.5` are fractions, and `.` and `1.2.3` are not, also
if a shorter run would be one: either the cursor goes past the whole run, or it stays and the run is
reported.

## What is not said here

Which number the run is read as is a separate matter, and so is what may stand behind it. That the
run is the longest one is all that counts of the text behind.
-/

namespace PrefixParsing

open Text

/-! ## The run -/

theorem Decimal.exists_ofRun?_iff {run : List Char}
    (h : ∀ x ∈ run, Reading.isFractionChar x = true) :
    (∃ d, ofRun? run = some d) ↔ (∃ x ∈ run, x.isDigit = true) ∧ run.count '.' ≤ 1 := by
  rw [← Option.ne_none_iff_exists', Ne, ofRun?_eq_none_iff h, not_or, Nat.not_le,
    Nat.lt_succ_iff]
  refine and_congr_left fun _ ↦ ?_
  constructor
  · intro hnot
    by_contra hnone
    refine hnot fun x hx ↦ ?_
    exact eq_false_of_ne_true fun hdigit ↦ hnone ⟨x, hx, hdigit⟩
  · rintro ⟨x, hx, hdigit⟩ hnone
    exact Bool.noConfusion (hdigit.symm.trans (hnone x hx))

namespace Reading

theorem isFractionChar_iff {c : Char} : isFractionChar c = true ↔ c.isDigit = true ∨ c = '.' := by
  rw [isFractionChar, Bool.or_eq_true, beq_iff_eq]

theorem utf8Size_of_isFractionChar {c : Char} (h : isFractionChar c = true) : c.utf8Size = 1 := by
  rcases isFractionChar_iff.mp h with hdigit | rfl
  · exact utf8Size_of_isDigit hdigit
  · rfl

variable {run rest : List Char}

/-- A fraction is read from a run that is one, whatever stands behind it. -/
theorem float_eq_found (h : IsLeadingRun isFractionChar run rest)
    (hdigit : ∃ x ∈ run, x.isDigit = true) (hpoints : run.count '.' ≤ 1) :
    ∃ x, float (run ++ rest) = .found run x := by
  obtain ⟨d, hd⟩ := (Decimal.exists_ofRun?_iff h.accepted).mpr ⟨hdigit, hpoints⟩
  have hne : run ≠ [] := by
    obtain ⟨x, hx, -⟩ := hdigit
    exact List.ne_nil_of_mem hx
  refine ⟨Binary64.ofRatio d.numerator d.denominator, ?_⟩
  rw [float, leadingRun_append h]
  simp only [List.isEmpty_iff, hne, if_false, hd]

theorem float_eq_missing (h : IsLeadingRun isFractionChar run rest)
    (hnot : ¬ ((∃ x ∈ run, x.isDigit = true) ∧ run.count '.' ≤ 1)) :
    float (run ++ rest) =
      .missing (if run = [] then none else some (.malformedFraction (String.ofList run))) := by
  have hnone : Decimal.ofRun? run = none := by
    rw [← Decimal.exists_ofRun?_iff h.accepted] at hnot
    exact Option.eq_none_iff_forall_ne_some.mpr fun d hd ↦ hnot ⟨d, hd⟩
  rw [float, leadingRun_append h]
  simp only [List.isEmpty_iff, hnone]
  split <;> rfl

end Reading

/-! ## Running -/

namespace Parser

variable {c : Cursor} {run rest : List Char}

theorem run_float_of_accepted (hc : c.InBounds) (hrest : c.rest = run ++ rest)
    (h : IsLeadingRun Reading.isFractionChar run rest) (hdigit : ∃ x ∈ run, x.isDigit = true)
    (hpoints : run.count '.' ≤ 1) :
    ∃ x, float.run c = ⟨some x, ⟨c.source, c.offset + run.length⟩, []⟩ := by
  obtain ⟨x, hread⟩ := Reading.float_eq_found h hdigit hpoints
  have hsize : byteSize run = run.length :=
    byteSize_of_utf8Size_eq_one fun y hy ↦ Reading.utf8Size_of_isFractionChar (h.accepted y hy)
  rw [← hrest] at hread
  refine ⟨x, ?_⟩
  show Scan.read Reading.float c = _
  rw [Scan.read_apply_of_found hread, hc.bump_eq hrest, hsize]

theorem run_float_of_refused (hrest : c.rest = run ++ rest)
    (h : IsLeadingRun Reading.isFractionChar run rest)
    (hnot : ¬ ((∃ x ∈ run, x.isDigit = true) ∧ run.count '.' ≤ 1)) :
    float.run c =
      ⟨none, c, if run = [] then [] else [.malformedFraction (String.ofList run)]⟩ := by
  have hread := Reading.float_eq_missing h hnot
  rw [← hrest] at hread
  show Scan.read Reading.float c = _
  rw [Scan.read_apply_of_missing hread]
  split <;> rfl

/-- **A fraction takes the whole run or nothing.** A fraction is read exactly if the run of digits
and points ahead has a digit and at most one point. Then the cursor is past the run, and nothing is
reported. Otherwise the cursor stays, and the run is reported if there is one. -/
theorem float_takes_run_or_stays :
    (∀ c : Cursor, c.InBounds →
      let run := c.remaining.toList.takeWhile Reading.isFractionChar
      ((∃ x, (float.run c).output = some x) ↔
        (∃ y ∈ run, y.isDigit = true) ∧ run.count '.' ≤ 1) ∧
      (∀ x, (float.run c).output = some x →
        (float.run c).cursor = ⟨c.source, c.offset + run.length⟩ ∧ (float.run c).events = []) ∧
      ((float.run c).output = none → (float.run c).cursor = c ∧
        (float.run c).events =
          if run = [] then [] else [.malformedFraction (String.ofList run)])) ∧
    (∀ y, Reading.isFractionChar y = true ↔ y.isDigit = true ∨ y = '.') ∧
    ∀ run, (Event.malformedFraction run).level = .debug ∧
      ("run", .text run) ∈ (Event.malformedFraction run).fields := by
  refine ⟨?_, ?_, ?_⟩
  · intro c hc
    have hrun := isLeadingRun_takeWhile Reading.isFractionChar c.rest
    have hrest : c.rest = c.rest.takeWhile Reading.isFractionChar ++
        c.rest.dropWhile Reading.isFractionChar := List.takeWhile_append_dropWhile.symm
    rw [Cursor.remaining, String.toList_ofList]
    generalize c.rest.takeWhile Reading.isFractionChar = run at hrun hrest ⊢
    dsimp only
    by_cases haccepted : (∃ y ∈ run, y.isDigit = true) ∧ run.count '.' ≤ 1
    · obtain ⟨x, hx⟩ := run_float_of_accepted hc hrest hrun haccepted.1 haccepted.2
      rw [hx]
      refine ⟨iff_of_true ⟨x, rfl⟩ haccepted, fun _ _ ↦ ⟨rfl, rfl⟩, ?_⟩
      intro hnone
      cases hnone
    · rw [run_float_of_refused hrest hrun haccepted]
      refine ⟨iff_of_false ?_ haccepted, ?_, fun _ ↦ ⟨rfl, rfl⟩⟩
      · rintro ⟨x, hx⟩
        cases hx
      · intro x hx
        cases hx
  · intro y
    rw [Reading.isFractionChar, Bool.or_eq_true, beq_iff_eq]
  · intro run
    exact ⟨rfl, List.mem_cons_self⟩

/-- With the point at the end, behind a character of two bytes, and with a point too many. -/
theorem float_takes_run_or_stays_points :
    (⟨"é5.°", 2⟩ : Cursor).InBounds ∧ (∃ x, (float.run ⟨"é5.°", 2⟩).output = some x) ∧
      (float.run ⟨"é5.°", 2⟩).cursor = ⟨"é5.°", 4⟩ ∧
      (⟨"é1.2.3x", 2⟩ : Cursor).InBounds ∧ (float.run ⟨"é1.2.3x", 2⟩).output = none ∧
      (float.run ⟨"é1.2.3x", 2⟩).events = [.malformedFraction "1.2.3"] := by
  have haccepted : (⟨"é5.°", 2⟩ : Cursor).InBounds := by
    show 2 ≤ "é5.°".utf8ByteSize
    decide +kernel
  have hrefused : (⟨"é1.2.3x", 2⟩ : Cursor).InBounds := by
    show 2 ≤ "é1.2.3x".utf8ByteSize
    decide +kernel
  have hahead : (⟨"é5.°", 2⟩ : Cursor).remaining.toList.takeWhile Reading.isFractionChar =
      ['5', '.'] := by decide +kernel
  have hahead' : (⟨"é1.2.3x", 2⟩ : Cursor).remaining.toList.takeWhile Reading.isFractionChar =
      ['1', '.', '2', '.', '3'] := by decide +kernel
  obtain ⟨hfloat, -⟩ := float_takes_run_or_stays
  obtain ⟨hread, hmoved, -⟩ := hfloat _ haccepted
  obtain ⟨hread', -, hstays⟩ := hfloat _ hrefused
  rw [hahead] at hread hmoved
  rw [hahead'] at hread' hstays
  obtain ⟨x, hx⟩ := hread.mpr ⟨⟨'5', List.mem_cons_self, rfl⟩, by decide⟩
  have hnone : (float.run ⟨"é1.2.3x", 2⟩).output = none := by
    rw [Option.eq_none_iff_forall_ne_some]
    intro y hy
    exact absurd (hread'.mp ⟨y, hy⟩).2 (by decide)
  exact ⟨haccepted, ⟨x, hx⟩, (hmoved x hx).1, hrefused, hnone, (hstays hnone).2⟩

end Parser

end PrefixParsing
