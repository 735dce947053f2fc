import PrefixParsing.Proofs.Integers

/-!
# What a parse reports

The events of a parse tell its whole story. A text is accepted in silence. If a match leaves text
over, the only event is the one that says how much. If there is no match, the last event says so,
and at most one event stands before it: the numeral at which the parser failed. The events are
described by what is written of them (`Event.Reads`): level, wording and fields.

## Why at most one

A number that is refused ends every sequence around it, and nothing runs after a failure. So events
and success exclude each other in every scan (`Scan.ReportsFailure`), and a sequence that goes on
has reported nothing so far. Attempts do not take events back, but they do not go on either.
-/

namespace PrefixParsing

open Text

/-- `ReportsNumeral text event` says that `event` is written with a run of number characters in
`text`, as long as it can be from where it starts, which is no number that can be read. -/
inductive ReportsNumeral (text : List Char) (event : Event) : Prop where
  /-- A run of digits whose value is beyond the largest integer. -/
  | integer (before run rest : List Char) (htext : text = before ++ (run ++ rest))
      (hrun : IsLeadingRun Char.isDigit run rest) (hne : run ≠ [])
      (hlarge : 2 ^ 63 - 1 < placeValue run)
      (hreads : event.Reads .debug "digit run does not fit in i64"
        [("digits", .text (String.ofList run)),
          ("error", .text "number too large to fit in target type")])
  /-- A run of digits and points without a digit, or with two points. -/
  | fraction (before run rest : List Char) (htext : text = before ++ (run ++ rest))
      (hrun : IsLeadingRun Reading.isFractionChar run rest) (hne : run ≠ [])
      (hform : (∀ x ∈ run, x.isDigit = false) ∨ 2 ≤ run.count '.')
      (hreads : event.Reads .debug "numeric run is not a valid float"
        [("run", .text (String.ofList run)), ("error", .text "invalid float literal")])

namespace ReportsNumeral

variable {text : List Char} {event : Event}

/-- What stands in a text stands in every text that ends with it. -/
theorem append_left (h : ReportsNumeral text event) (passed : List Char) :
    ReportsNumeral (passed ++ text) event := by
  cases h with
  | integer before run rest htext hrun hne hlarge hreads =>
    exact .integer (passed ++ before) run rest (by rw [htext, List.append_assoc]) hrun hne hlarge
      hreads
  | fraction before run rest htext hrun hne hform hreads =>
    exact .fraction (passed ++ before) run rest (by rw [htext, List.append_assoc]) hrun hne hform
      hreads

theorem of_integer {report : Option Event} (h : Reading.integer text = .missing report) :
    ∀ event ∈ report, ReportsNumeral text event := by
  rcases Reading.of_integer_eq_missing h with rfl | ⟨run, rest, rfl, hne, hrun, hlarge, rfl⟩
  · exact fun event hevent ↦ nomatch hevent
  · intro event hevent
    obtain rfl := Option.mem_some.mp hevent
    rw [digitsValue_eq_placeValue] at hlarge
    exact .integer [] run rest rfl hrun hne hlarge (Event.reads_as (.integerTooLarge _))

theorem of_float {report : Option Event} (h : Reading.float text = .missing report) :
    ∀ event ∈ report, ReportsNumeral text event := by
  rcases Reading.of_float_eq_missing h with rfl | ⟨run, rest, rfl, hne, hrun, hnone, rfl⟩
  · exact fun event hevent ↦ nomatch hevent
  · intro event hevent
    obtain rfl := Option.mem_some.mp hevent
    exact .fraction [] run rest rfl hrun hne ((Decimal.ofRun?_eq_none_iff hrun.accepted).mp hnone)
      (Event.reads_as (.malformedFraction _))

theorem of_eq_none {report : Option Event} (h : report = none) :
    ∀ event ∈ report, ReportsNumeral text event := by
  rw [h]
  exact fun event hevent ↦ nomatch hevent

end ReportsNumeral

/-! ## Scans -/

namespace Scan

/-- `s` reports nothing when it succeeds, and at most one numeral of the text ahead when it
fails. -/
def ReportsFailure {α : Type} (s : Scan α) : Prop :=
  ∀ {text consumed rest : List Char} {output : Option α} {events : List Event},
    s.Yields text output consumed rest events →
    (output.isSome → events = []) ∧ events.length ≤ 1 ∧ ∀ event ∈ events, ReportsNumeral text event

variable {α β : Type}

theorem reportsFailure_pure (a : α) : (pure a : Scan α).ReportsFailure := by
  intro text consumed rest output events h
  obtain ⟨-, -, -, rfl⟩ := (yields_pure a text).unique h
  exact ⟨fun _ ↦ rfl, Nat.zero_le 1, fun _ hevent ↦ nomatch hevent⟩

theorem reportsFailure_fail : (fail : Scan α).ReportsFailure := by
  intro text consumed rest output events h
  obtain ⟨-, -, -, rfl⟩ := (yields_fail text).unique h
  exact ⟨fun _ ↦ rfl, Nat.zero_le 1, fun _ hevent ↦ nomatch hevent⟩

theorem reportsFailure_read {look : List Char → Reading α} (hlook : ReadsStart look)
    (h : ∀ {text : List Char} {report : Option Event}, look text = .missing report →
      ∀ event ∈ report, ReportsNumeral text event) : (read look).ReportsFailure := by
  intro text consumed rest output events hyields
  rcases hyields.of_read hlook with ⟨a, rfl, -, rfl⟩ | ⟨report, rfl, hmissing, -, rfl⟩
  · exact ⟨fun _ ↦ rfl, Nat.zero_le 1, fun _ hevent ↦ nomatch hevent⟩
  · refine ⟨(fun hsome ↦ nomatch hsome), ?_, fun event hevent ↦ ?_⟩
    · cases report <;> simp
    · exact h hmissing event (Option.mem_toList.mp hevent)

theorem ReportsFailure.bind {p : Scan α} {k : α → Scan β} (hp : p.Local) (hk : ∀ a, (k a).Local)
    (hpreports : p.ReportsFailure) (hkreports : ∀ a, (k a).ReportsFailure) :
    (p >>= k).ReportsFailure := by
  intro text consumed rest output events h
  rcases h.of_bind hp hk with ⟨rfl, hfail⟩ | ⟨a, first, second, _, _, rfl, rfl, hfirst, hsecond⟩
  · exact ⟨(fun hsome ↦ nomatch hsome), (hpreports hfail).2⟩
  · obtain rfl := (hpreports hfirst).1 rfl
    -- the first part has succeeded in silence, so all events are those of the second
    rw [List.nil_append, hfirst.text_eq]
    obtain ⟨hsilent, hlength, hevents⟩ := hkreports a hsecond
    exact ⟨hsilent, hlength, fun event hevent ↦ (hevents event hevent).append_left first⟩

theorem ReportsFailure.attempt {p : Scan α} (hp : p.Local) (hpreports : p.ReportsFailure) :
    p.attempt.ReportsFailure := by
  intro text consumed rest output events h
  rcases h.of_attempt hp with ⟨_, -, hsome⟩ | ⟨rfl, -, _, _, hnone⟩
  · exact hpreports hsome
  · exact ⟨(fun hsome ↦ nomatch hsome), (hpreports hnone).2⟩

end Scan

/-! ## Whole texts -/

namespace Parser

variable {α : Type}

theorem reportsFailure_run (p : Parser α) : p.run.ReportsFailure :=
  local_induction (motive := fun s ↦ s.ReportsFailure)
    (Scan.reportsFailure_read Reading.eq_append_of_integer ReportsNumeral.of_integer)
    (Scan.reportsFailure_read Reading.eq_append_of_float ReportsNumeral.of_float)
    (Scan.reportsFailure_read Reading.eq_append_of_anyChar fun h ↦
      ReportsNumeral.of_eq_none (Reading.of_anyChar_eq_missing h))
    (fun _ ↦ Scan.reportsFailure_read Reading.eq_append_of_literal fun h ↦
      ReportsNumeral.of_eq_none (Reading.of_literal_eq_missing h))
    Scan.reportsFailure_pure Scan.reportsFailure_fail
    (fun _ _ hp hk hpreports hkreports ↦ hpreports.bind hp hk hkreports)
    (fun _ hp hpreports ↦ hpreports.attempt hp) p

/-- The parser matches all of `text`: the value is given, and nothing is reported. -/
def Accepts (p : Parser α) (text : String) : Prop :=
  ∃ a, p.runOn text = (some a, "") ∧ p.parse text = some a ∧ (p.parseReporting text).events = []

/-- The parser matches a part of `text`: there is no value, and the sizes of the part that was
consumed and of the one that is left are reported. -/
def LeavesInput (p : Parser α) (text : String) : Prop :=
  ∃ a left consumed event, left ≠ "" ∧ p.runOn text = (some a, left) ∧ p.parse text = none ∧
    (p.parseReporting text).events = [event] ∧
    event.Reads .trace "rejecting match with unconsumed trailing input"
      [("consumed", .number consumed), ("remaining", .number left.utf8ByteSize)] ∧
    0 < left.utf8ByteSize ∧ consumed + left.utf8ByteSize = text.utf8ByteSize

/-- The parser does not match: that is reported with the size of `text`, after at most one numeral
of `text` that cannot be read. -/
def Refuses (p : Parser α) (text : String) : Prop :=
  ∃ left reports event, p.runOn text = (none, left) ∧ p.parse text = none ∧
    (p.parseReporting text).events = reports ++ [event] ∧
    event.Reads .trace "parser did not match" [("input_len", .number text.utf8ByteSize)] ∧
    reports.length ≤ 1 ∧ ∀ event ∈ reports, ReportsNumeral text.toList event

theorem Accepts.not_leavesInput {p : Parser α} {text : String} (h : p.Accepts text) :
    ¬ p.LeavesInput text := by
  rintro ⟨_, _, _, _, hne, hleft, -⟩
  obtain ⟨_, hnone, -⟩ := h
  exact hne (Prod.mk.inj (hleft.symm.trans hnone)).2

theorem Accepts.not_refuses {p : Parser α} {text : String} (h : p.Accepts text) :
    ¬ p.Refuses text := by
  rintro ⟨_, _, _, hfail, -⟩
  obtain ⟨_, hsome, -⟩ := h
  exact nomatch (Prod.mk.inj (hfail.symm.trans hsome)).1

theorem LeavesInput.not_refuses {p : Parser α} {text : String} (h : p.LeavesInput text) :
    ¬ p.Refuses text := by
  rintro ⟨_, _, _, hfail, -⟩
  obtain ⟨_, _, _, _, -, hsome, -⟩ := h
  exact nomatch (Prod.mk.inj (hfail.symm.trans hsome)).1

theorem accepts_of_yields {p : Parser α} {text : String} {a : α} {consumed : List Char}
    {events : List Event} (h : p.run.Yields text.toList (some a) consumed [] events) :
    p.Accepts text := by
  obtain rfl := (p.reportsFailure_run h).1 rfl
  have hreport := parseReporting_eq h
  exact ⟨a, runOn_eq h, congrArg Result.output hreport, congrArg Result.events hreport⟩

theorem leavesInput_of_yields {p : Parser α} {text : String} {a : α} {consumed rest : List Char}
    {events : List Event} (h : p.run.Yields text.toList (some a) consumed rest events)
    (hrest : rest ≠ []) : p.LeavesInput text := by
  obtain rfl := (p.reportsFailure_run h).1 rfl
  have hreport := parseReporting_eq h
  simp only [if_neg hrest] at hreport
  have hsize : (String.ofList rest).utf8ByteSize = byteSize rest := utf8ByteSize_ofList rest
  have hpos : 0 < byteSize rest := Nat.pos_of_ne_zero fun hzero ↦ hrest (byteSize_eq_zero.mp hzero)
  refine ⟨a, String.ofList rest, byteSize consumed, .trailingInput (byteSize consumed)
    (byteSize rest), ?_, runOn_eq h, congrArg Result.output hreport,
    congrArg Result.events hreport, ?_, ?_, ?_⟩
  · exact fun hempty ↦ hrest (String.ofList_eq_empty_iff.mp hempty)
  · rw [hsize]
    exact Event.reads_as (.trailingInput _ _)
  · rwa [hsize]
  · rw [hsize, ← byteSize_append, ← h.text_eq, utf8ByteSize_eq]

theorem refuses_of_yields {p : Parser α} {text : String} {consumed rest : List Char}
    {events : List Event} (h : p.run.Yields text.toList none consumed rest events) :
    p.Refuses text := by
  obtain ⟨-, hlength, hevents⟩ := p.reportsFailure_run h
  have hreport := parseReporting_eq h
  exact ⟨String.ofList rest, events, .noMatch text.utf8ByteSize, runOn_eq h,
    congrArg Result.output hreport, congrArg Result.events hreport,
    Event.reads_as (.noMatch _), hlength, hevents⟩

/-- **A parse and its events.** A text is accepted, or matched with something left over, or refused,
and never two of these. -/
theorem accepts_or_leavesInput_or_refuses (p : Parser α) (text : String) :
    (p.Accepts text ∧ ¬ p.LeavesInput text ∧ ¬ p.Refuses text) ∨
      (¬ p.Accepts text ∧ p.LeavesInput text ∧ ¬ p.Refuses text) ∨
      (¬ p.Accepts text ∧ ¬ p.LeavesInput text ∧ p.Refuses text) := by
  obtain ⟨output, consumed, rest, events, hyields⟩ := p.local_run text.toList
  cases output with
  | none =>
    have h := refuses_of_yields hyields
    exact Or.inr (Or.inr ⟨fun haccepts ↦ haccepts.not_refuses h,
      fun hleaves ↦ hleaves.not_refuses h, h⟩)
  | some a =>
    by_cases hrest : rest = []
    · subst hrest
      have h := accepts_of_yields hyields
      exact Or.inl ⟨h, h.not_leavesInput, h.not_refuses⟩
    · have h := leavesInput_of_yields hyields hrest
      exact Or.inr (Or.inl ⟨fun haccepts ↦ haccepts.not_leavesInput h, h, h.not_refuses⟩)

end Parser

end PrefixParsing
