import PrefixParsing.Reading

/-!
# What the readings find

The readings of numbers look at the leading run of number characters and at nothing behind it. So a
reading of a text is the reading of its leading run (`integer_append`, `float_append`), and what
follows the run matters only in that it does not go on with it. `IsLeadingRun` says the latter
without the scan that finds the run.

A run that is refused is refused for a reason that can be seen on it: it spells a number that is too
large, or it has no digit, or two points (`Decimal.ofRun?_eq_none_iff`).
-/

namespace PrefixParsing

open Text

/-! ## Leading runs -/

namespace Text

/-- `run ++ rest` starts with the accepted characters `run`, and with no more of them. -/
structure IsLeadingRun (accept : Char → Bool) (run rest : List Char) : Prop where
  /-- All characters of the run are accepted. -/
  accepted : ∀ x ∈ run, accept x = true
  /-- The run is not followed by an accepted character. -/
  refused : ∀ x, rest.head? = some x → accept x = false

variable {accept : Char → Bool} {run rest : List Char}

theorem leadingRun_append (h : IsLeadingRun accept run rest) :
    leadingRun accept (run ++ rest) = run := by
  rw [leadingRun_eq_takeWhile, List.takeWhile_append_of_pos h.accepted]
  cases rest with
  | nil => rw [List.takeWhile_nil, List.append_nil]
  | cons x rest =>
    have hx : accept x = false := h.refused x rfl
    rw [List.takeWhile_cons, hx, if_neg Bool.false_ne_true, List.append_nil]

/-- A run that is the whole text is a leading run. -/
theorem IsLeadingRun.alone (h : IsLeadingRun accept run rest) : IsLeadingRun accept run [] :=
  ⟨h.accepted, fun _ hx ↦ nomatch hx⟩

/-- Every text starts with a leading run, which may be empty. -/
theorem exists_isLeadingRun (accept : Char → Bool) (text : List Char) :
    ∃ rest, text = leadingRun accept text ++ rest ∧
      IsLeadingRun accept (leadingRun accept text) rest := by
  rw [leadingRun_eq_takeWhile]
  refine ⟨text.dropWhile accept, List.takeWhile_append_dropWhile.symm, ?_, ?_⟩
  · intro x hx
    exact List.all_eq_true.mp List.all_takeWhile x hx
  · intro x hx
    have hnot := List.head?_dropWhile_not accept text
    rw [hx] at hnot
    exact hnot

theorem isLeadingRun_of_leadingRun_eq (h : leadingRun accept (run ++ rest) = run) :
    IsLeadingRun accept run rest := by
  obtain ⟨rest', htext, hrun⟩ := exists_isLeadingRun accept (run ++ rest)
  rw [h] at htext hrun
  rwa [List.append_cancel_left htext]

theorem IsLeadingRun.unique {run' rest' : List Char} (h : IsLeadingRun accept run rest)
    (h' : IsLeadingRun accept run' rest') (htext : run ++ rest = run' ++ rest') :
    run = run' ∧ rest = rest' := by
  have hrun : run = run' := by
    rw [← leadingRun_append h, htext, leadingRun_append h']
  subst hrun
  exact ⟨rfl, List.append_cancel_left htext⟩

end Text

/-! ## Fraction numerals -/

namespace Decimal

variable {run whole places : List Char}

theorem ne_point_of_notMem (h : '.' ∉ run) : ∀ x ∈ run, decide (x ≠ '.') = true := fun _ hx ↦
  decide_eq_true fun heq ↦ h (heq ▸ hx)

theorem ofRun?_of_notMem (h : '.' ∉ run) :
    ofRun? run = if run = [] then none else some ⟨run, []⟩ := by
  have hne := ne_point_of_notMem h
  have hwhole : (run ++ []).takeWhile (· ≠ '.') = run ++ [] := List.takeWhile_append_of_pos hne
  have hplaces : (run ++ []).dropWhile (· ≠ '.') = [] := List.dropWhile_append_of_pos hne
  rw [List.append_nil] at hwhole hplaces
  simp only [ofRun?, hwhole, hplaces, List.drop_nil, List.not_mem_nil, and_true, false_or]

theorem ofRun?_append_point (h : '.' ∉ whole) :
    ofRun? (whole ++ '.' :: places) =
      if '.' ∈ places ∨ (whole = [] ∧ places = []) then none else some ⟨whole, places⟩ := by
  have hne := ne_point_of_notMem h
  rw [ofRun?, List.takeWhile_append_of_pos hne, List.dropWhile_append_of_pos hne]
  simp

theorem eq_nil_of_no_digit (h : ∀ x ∈ run, Reading.isFractionChar x = true)
    (hdigit : ∀ x ∈ run, x.isDigit = false) (hpoint : '.' ∉ run) : run = [] := by
  refine List.eq_nil_iff_forall_not_mem.mpr fun x hx ↦ ?_
  have hor := h x hx
  rw [Reading.isFractionChar, hdigit x hx, Bool.false_or, beq_iff_eq] at hor
  exact hpoint (hor ▸ hx)

/-- The parts around the only point are both empty exactly if there is no digit. -/
theorem forall_not_isDigit_append_point_iff
    (h : ∀ x ∈ whole ++ '.' :: places, Reading.isFractionChar x = true) (hwhole : '.' ∉ whole)
    (hplaces : '.' ∉ places) :
    (∀ x ∈ whole ++ '.' :: places, x.isDigit = false) ↔ whole = [] ∧ places = [] := by
  constructor
  · intro hdigit
    simp only [List.mem_append, List.mem_cons] at h hdigit
    refine ⟨eq_nil_of_no_digit (fun x hx ↦ h x (Or.inl hx)) (fun x hx ↦ hdigit x (Or.inl hx))
      hwhole, ?_⟩
    exact eq_nil_of_no_digit (fun x hx ↦ h x (Or.inr (Or.inr hx)))
      (fun x hx ↦ hdigit x (Or.inr (Or.inr hx))) hplaces
  · rintro ⟨rfl, rfl⟩ x hx
    obtain rfl := List.mem_singleton.mp hx
    rfl

/-- A run of digits and points is no numeral exactly if it has no digit, or two points. -/
theorem ofRun?_eq_none_iff (h : ∀ x ∈ run, Reading.isFractionChar x = true) :
    ofRun? run = none ↔ (∀ x ∈ run, x.isDigit = false) ∨ 2 ≤ run.count '.' := by
  by_cases hmem : '.' ∈ run
  -- a run with a point is cut at its first one
  · obtain ⟨whole, places, rfl, hwhole⟩ := List.eq_append_cons_of_mem hmem
    have hcount : (whole ++ '.' :: places).count '.' = places.count '.' + 1 := by
      rw [List.count_append, List.count_eq_zero.mpr hwhole, List.count_cons_self, Nat.zero_add]
    rw [ofRun?_append_point hwhole, hcount, ite_eq_left_iff]
    simp only [reduceCtorEq, imp_false, Decidable.not_not]
    by_cases hplaces : '.' ∈ places
    · have hpos : 0 < places.count '.' := List.count_pos_iff.mpr hplaces
      exact ⟨fun _ ↦ Or.inr (Nat.succ_le_succ hpos), fun _ ↦ Or.inl hplaces⟩
    · rw [forall_not_isDigit_append_point_iff h hwhole hplaces, List.count_eq_zero.mpr hplaces]
      constructor
      · exact fun hor ↦ Or.inl (hor.resolve_left hplaces)
      · exact fun hor ↦ Or.inr (hor.resolve_right (by omega))
  · rw [ofRun?_of_notMem hmem, List.count_eq_zero.mpr hmem, ite_eq_left_iff]
    simp only [reduceCtorEq, imp_false, Decidable.not_not]
    constructor
    · rintro rfl
      exact Or.inl fun x hx ↦ nomatch hx
    · rintro (hdigit | htwo)
      · exact eq_nil_of_no_digit h hdigit hmem
      · omega

end Decimal

/-! ## Numbers -/

namespace Reading

variable {text lexeme run rest : List Char}

theorem integer_append (h : IsLeadingRun Char.isDigit run rest) :
    integer (run ++ rest) = integer run := by
  have halone := leadingRun_append h.alone
  rw [List.append_nil] at halone
  simp only [integer, leadingRun_append h, halone]

theorem float_append (h : IsLeadingRun isFractionChar run rest) :
    float (run ++ rest) = float run := by
  have halone := leadingRun_append h.alone
  rw [List.append_nil] at halone
  simp only [float, leadingRun_append h, halone]

theorem isLeadingRun_of_integer {n : Int} (h : integer (lexeme ++ rest) = .found lexeme n) :
    IsLeadingRun Char.isDigit lexeme rest := by
  refine isLeadingRun_of_leadingRun_eq ?_
  simp only [integer] at h
  split at h
  · cases h
  · split at h
    · exact (Reading.found.inj h).1
    · cases h

theorem isLeadingRun_of_float {x : Binary64} (h : float (lexeme ++ rest) = .found lexeme x) :
    IsLeadingRun isFractionChar lexeme rest := by
  refine isLeadingRun_of_leadingRun_eq ?_
  simp only [float] at h
  split at h
  · cases h
  · split at h
    · exact (Reading.found.inj h).1
    · cases h

/-- A run of digits is reported only if it spells a number that is too large. -/
theorem of_integer_eq_missing {report : Option Event} (h : integer text = .missing report) :
    report = none ∨ ∃ run rest, text = run ++ rest ∧ run ≠ [] ∧
      IsLeadingRun Char.isDigit run rest ∧ maxInteger < digitsValue run ∧
      report = some (.integerTooLarge (String.ofList run)) := by
  obtain ⟨rest, htext, hrun⟩ := exists_isLeadingRun Char.isDigit text
  simp only [integer] at h
  split at h
  case isTrue => exact Or.inl (Reading.missing.inj h).symm
  case isFalse hne =>
    split at h
    case isTrue => cases h
    case isFalse hlarge =>
      refine Or.inr ⟨_, rest, htext, ?_, hrun, Nat.lt_of_not_le hlarge, ?_⟩
      · exact fun hnil ↦ hne (List.isEmpty_iff.mpr hnil)
      · exact (Reading.missing.inj h).symm

/-- A run of digits and points is reported only if it is no numeral. -/
theorem of_float_eq_missing {report : Option Event} (h : float text = .missing report) :
    report = none ∨ ∃ run rest, text = run ++ rest ∧ run ≠ [] ∧
      IsLeadingRun isFractionChar run rest ∧ Decimal.ofRun? run = none ∧
      report = some (.malformedFraction (String.ofList run)) := by
  obtain ⟨rest, htext, hrun⟩ := exists_isLeadingRun isFractionChar text
  simp only [float] at h
  split at h
  case isTrue => exact Or.inl (Reading.missing.inj h).symm
  case isFalse hne =>
    split at h
    case h_1 => cases h
    case h_2 hnone =>
      refine Or.inr ⟨_, rest, htext, ?_, hrun, hnone, (Reading.missing.inj h).symm⟩
      exact fun hnil ↦ hne (List.isEmpty_iff.mpr hnil)

/-! ## Characters and fixed texts -/

theorem anyChar_eq_found_iff {lexeme rest : List Char} {c : Char} :
    anyChar (lexeme ++ rest) = .found lexeme c ↔ lexeme = [c] := by
  constructor
  · intro h
    rcases lexeme with _ | ⟨x, lexeme⟩
    · rcases rest with _ | ⟨x, rest⟩
      · cases h
      · exact absurd (Reading.found.inj h).1 (List.cons_ne_nil x [])
    · obtain ⟨hlexeme, rfl⟩ := Reading.found.inj h
      exact hlexeme.symm
  · rintro rfl
    rfl

theorem literal_eq_missing {expected : String} (h : ¬ expected.toList <+: text) :
    literal expected text = .missing none := by
  rw [literal, if_neg (mt List.isPrefixOf_iff_prefix.mp h)]

theorem literal_eq_found_iff {expected : String} {lexeme rest : List Char} {u : Unit} :
    literal expected (lexeme ++ rest) = .found lexeme u ↔ lexeme = expected.toList := by
  constructor
  · intro h
    by_cases hstart : expected.toList <+: lexeme ++ rest
    · rw [literal, if_pos (List.isPrefixOf_iff_prefix.mpr hstart)] at h
      exact (Reading.found.inj h).1.symm
    · rw [literal_eq_missing hstart] at h
      cases h
  · rintro rfl
    rw [literal, if_pos (List.isPrefixOf_iff_prefix.mpr (List.prefix_append _ _))]

theorem of_anyChar_eq_missing {report : Option Event} (h : anyChar text = .missing report) :
    report = none := by
  cases text with
  | nil => exact (Reading.missing.inj h).symm
  | cons x text => cases h

theorem of_literal_eq_missing {expected : String} {report : Option Event}
    (h : literal expected text = .missing report) : report = none := by
  rw [literal] at h
  split at h
  case isTrue => cases h
  case isFalse => exact (Reading.missing.inj h).symm

end Reading

end PrefixParsing
