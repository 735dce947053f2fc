import PrefixParsing.Parser.Induction

/-!
# Parsers see only the text ahead

A scan is a function of a whole cursor, but a parser uses little of it: what it produces, which
characters it passes and what it reports depend on the text ahead of the cursor alone. This file
turns that into a judgment on texts. `s.Yields text output consumed rest events` says that, with
`text` ahead, the scan `s` gives `output`, passes `consumed`, leaves `rest` ahead and reports
`events`, and that it does so at every cursor in bounds that has `text` ahead of it.

## Why the judgment keeps the rest

A number takes all the number characters that are there, so what a parser consumes cannot be
described without the text that it leaves. The judgment therefore speaks about the whole text ahead,
and sequences of scans are composed along the rest that the first one leaves.

## Main statements

Every parser is local: each text has an outcome of this kind (`Parser.local_run`), and it has only
one (`Scan.Yields.unique`). So a statement about all runs of all parsers can be proved on texts, by
`Parser.local_induction`, without a cursor in sight.
-/

namespace PrefixParsing

open Text

/-! ## Moving past characters that are ahead -/

namespace Cursor

/-- The cursor past `chars`, which are meant to be ahead of it. -/
def past (c : Cursor) (chars : List Char) : Cursor :=
  { c with offset := c.offset + byteSize chars }

@[simp] theorem past_source (c : Cursor) (chars : List Char) :
    (c.past chars).source = c.source := rfl

@[simp] theorem past_offset (c : Cursor) (chars : List Char) :
    (c.past chars).offset = c.offset + byteSize chars := rfl

@[simp] theorem past_nil (c : Cursor) : c.past [] = c := rfl

theorem past_past (c : Cursor) (a b : List Char) : (c.past a).past b = c.past (a ++ b) := by
  rw [past, past, past, byteSize_append, Nat.add_assoc]

theorem rest_past {c : Cursor} {a b : List Char} (h : c.rest = a ++ b) : (c.past a).rest = b :=
  rest_of_rest_eq_append h

theorem InBounds.past {c : Cursor} (hc : c.InBounds) {a b : List Char} (h : c.rest = a ++ b) :
    (c.past a).InBounds := by
  have hle := hc.offset_add_byteSize_rest_le
  rw [h, byteSize_append] at hle
  show c.offset + byteSize a ≤ c.size
  omega

theorem OnBoundary.past {c : Cursor} (hc : c.OnBoundary) {a b : List Char} (h : c.rest = a ++ b) :
    (c.past a).OnBoundary := hc.of_rest_eq_append h

/-- Every text is ahead of some cursor in bounds. -/
theorem exists_rest_eq (text : List Char) : ∃ c : Cursor, c.InBounds ∧ c.rest = text :=
  ⟨start (String.ofList text), (onBoundary_start _).inBounds, by
    rw [rest_start, String.toList_ofList]⟩

end Cursor

/-! ## The judgment -/

namespace Scan

variable {α β : Type}

/-- With `text` ahead, `s` gives `output`, passes `consumed`, leaves `rest` and reports `events`,
whatever stands before the text. -/
structure Yields (s : Scan α) (text : List Char) (output : Option α) (consumed rest : List Char)
    (events : List Event) : Prop where
  /-- What was passed and what is left make up the text. -/
  text_eq : text = consumed ++ rest
  /-- The outcome at any cursor that has the text ahead. -/
  apply_eq : ∀ c : Cursor, c.InBounds → c.rest = text → s c = ⟨output, c.past consumed, events⟩

/-- The outcome of `s` is decided by the text ahead. -/
def Local (s : Scan α) : Prop :=
  ∀ text, ∃ output consumed rest events, s.Yields text output consumed rest events

/-- A text has only one outcome. -/
theorem Yields.unique {s : Scan α} {text consumed consumed' rest rest' : List Char}
    {output output' : Option α} {events events' : List Event}
    (h : s.Yields text output consumed rest events)
    (h' : s.Yields text output' consumed' rest' events') :
    output = output' ∧ consumed = consumed' ∧ rest = rest' ∧ events = events' := by
  obtain ⟨c, hc, hrest⟩ := Cursor.exists_rest_eq text
  have heq := (h.apply_eq c hc hrest).symm.trans (h'.apply_eq c hc hrest)
  obtain ⟨houtput, hcursor, hevents⟩ := Outcome.mk.inj heq
  have hsize : byteSize consumed = byteSize consumed' :=
    Nat.add_left_cancel (congrArg Cursor.offset hcursor)
  -- both are starts of one text, so their sizes tell them apart
  have hcut : cut (byteSize consumed) text = some (consumed, rest) :=
    cut_eq_some_iff.mpr ⟨h.text_eq, rfl⟩
  have hcut' : cut (byteSize consumed) text = some (consumed', rest') :=
    cut_eq_some_iff.mpr ⟨h'.text_eq, hsize.symm⟩
  obtain ⟨hconsumed, hleft⟩ := Prod.mk.inj (Option.some.inj (hcut.symm.trans hcut'))
  exact ⟨houtput, hconsumed, hleft, hevents⟩

/-! ## The judgment for each operation -/

theorem yields_pure (a : α) (text : List Char) :
    (pure a : Scan α).Yields text (some a) [] text [] := ⟨rfl, fun _ _ _ ↦ rfl⟩

theorem yields_fail (text : List Char) : (fail : Scan α).Yields text none [] text [] :=
  ⟨rfl, fun _ _ _ ↦ rfl⟩

theorem yields_read_of_found {look : List Char → Reading α} {lexeme rest : List Char} {a : α}
    (h : look (lexeme ++ rest) = .found lexeme a) :
    (read look).Yields (lexeme ++ rest) (some a) lexeme rest [] := by
  refine ⟨rfl, fun c hc hrest ↦ ?_⟩
  rw [read_apply_of_found (hrest ▸ h), hc.bump_eq hrest]
  rfl

theorem yields_read_of_missing {look : List Char → Reading α} {text : List Char}
    {report : Option Event} (h : look text = .missing report) :
    (read look).Yields text none [] text report.toList := by
  refine ⟨rfl, fun c _ hrest ↦ ?_⟩
  rw [read_apply_of_missing (hrest ▸ h), Cursor.past_nil]

/-- A sequence goes on with the text that its first part leaves. -/
theorem Yields.bind {p : Scan α} {k : α → Scan β} {text consumed middle consumed' rest : List Char}
    {a : α} {output : Option β} {events events' : List Event}
    (hp : p.Yields text (some a) consumed middle events)
    (hk : (k a).Yields middle output consumed' rest events') :
    (p >>= k).Yields text output (consumed ++ consumed') rest (events ++ events') := by
  refine ⟨?_, fun c hc hrest ↦ ?_⟩
  · rw [hp.text_eq, hk.text_eq, List.append_assoc]
  · have hahead : c.rest = consumed ++ middle := hrest.trans hp.text_eq
    -- the second part starts where the first one has left the cursor, with the middle ahead
    rw [bind_apply_of_some (hp.apply_eq c hc hrest),
      hk.apply_eq (c.past consumed) (hc.past hahead) (Cursor.rest_past hahead), Cursor.past_past]

theorem Yields.bind_none {p : Scan α} {text consumed rest : List Char} {events : List Event}
    (hp : p.Yields text none consumed rest events) (k : α → Scan β) :
    (p >>= k).Yields text none consumed rest events := by
  refine ⟨hp.text_eq, fun c hc hrest ↦ ?_⟩
  rw [bind_apply_of_none (hp.apply_eq c hc hrest)]

theorem Yields.attempt_some {p : Scan α} {text consumed rest : List Char} {a : α}
    {events : List Event} (hp : p.Yields text (some a) consumed rest events) :
    p.attempt.Yields text (some a) consumed rest events := by
  refine ⟨hp.text_eq, fun c hc hrest ↦ ?_⟩
  have happly := hp.apply_eq c hc hrest
  rw [attempt_apply_of_some (a := a) (by rw [happly]), happly]

/-- A failed attempt passes nothing, and keeps its events. -/
theorem Yields.attempt_none {p : Scan α} {text consumed rest : List Char} {events : List Event}
    (hp : p.Yields text none consumed rest events) :
    p.attempt.Yields text none [] text events := by
  refine ⟨rfl, fun c hc hrest ↦ ?_⟩
  have happly := hp.apply_eq c hc hrest
  rw [attempt_apply_of_none (by rw [happly]), happly, Cursor.past_nil]
  -- only the offset has moved, so the checkpoint gives the cursor back
  show (⟨none, (c.past consumed).restore c.checkpoint, events⟩ : Outcome α) = _
  rw [hc.restore_checkpoint (c.past_source consumed)]

/-! ## Locality is kept -/

/-- Whatever the reading finds is a start of the text that it looked at. -/
def ReadsStart (look : List Char → Reading α) : Prop :=
  ∀ {text lexeme : List Char} {a : α}, look text = .found lexeme a → ∃ rest, text = lexeme ++ rest

theorem local_pure (a : α) : (pure a : Scan α).Local := fun text ↦ ⟨_, _, _, _, yields_pure a text⟩

theorem local_fail : (fail : Scan α).Local := fun text ↦ ⟨_, _, _, _, yields_fail text⟩

theorem local_read {look : List Char → Reading α} (hlook : ReadsStart look) :
    (read look).Local := by
  intro text
  cases h : look text with
  | found lexeme a =>
    obtain ⟨rest, rfl⟩ := hlook h
    exact ⟨_, _, _, _, yields_read_of_found h⟩
  | missing report => exact ⟨_, _, _, _, yields_read_of_missing h⟩

theorem Local.bind {p : Scan α} {k : α → Scan β} (hp : p.Local) (hk : ∀ a, (k a).Local) :
    (p >>= k).Local := by
  intro text
  obtain ⟨output, consumed, middle, events, hyields⟩ := hp text
  cases output with
  | none => exact ⟨_, _, _, _, hyields.bind_none k⟩
  | some a =>
    obtain ⟨output', consumed', rest, events', hyields'⟩ := hk a middle
    exact ⟨_, _, _, _, hyields.bind hyields'⟩

theorem Local.attempt {p : Scan α} (hp : p.Local) : p.attempt.Local := by
  intro text
  obtain ⟨output, consumed, rest, events, hyields⟩ := hp text
  cases output with
  | none => exact ⟨_, _, _, _, hyields.attempt_none⟩
  | some a => exact ⟨_, _, _, _, hyields.attempt_some⟩

/-! ## Taking an outcome apart

The judgment of a compound scan comes from those of its parts, because the parts are local and an
outcome is unique. -/

theorem Yields.of_read {look : List Char → Reading α} (hlook : ReadsStart look)
    {text consumed rest : List Char} {output : Option α} {events : List Event}
    (h : (read look).Yields text output consumed rest events) :
    (∃ a, output = some a ∧ look text = .found consumed a ∧ events = []) ∨
      ∃ report, output = none ∧ look text = .missing report ∧ consumed = [] ∧
        events = report.toList := by
  cases hread : look text with
  | found lexeme a =>
    obtain ⟨rest', rfl⟩ := hlook hread
    obtain ⟨rfl, rfl, -, rfl⟩ := h.unique (yields_read_of_found hread)
    exact Or.inl ⟨a, rfl, rfl, rfl⟩
  | missing report =>
    obtain ⟨rfl, rfl, -, rfl⟩ := h.unique (yields_read_of_missing hread)
    exact Or.inr ⟨report, rfl, rfl, rfl, rfl⟩

/-- A sequence ends in its first part, or its first part succeeds and the second one has the text
that is left. -/
theorem Yields.of_bind {p : Scan α} {k : α → Scan β} (hp : p.Local) (hk : ∀ a, (k a).Local)
    {text consumed rest : List Char} {output : Option β} {events : List Event}
    (h : (p >>= k).Yields text output consumed rest events) :
    (output = none ∧ p.Yields text none consumed rest events) ∨
      ∃ a first second events₁ events₂, consumed = first ++ second ∧ events = events₁ ++ events₂ ∧
        p.Yields text (some a) first (second ++ rest) events₁ ∧
        (k a).Yields (second ++ rest) output second rest events₂ := by
  obtain ⟨output', first, middle, events₁, hfirst⟩ := hp text
  cases output' with
  | none =>
    obtain ⟨rfl, rfl, rfl, rfl⟩ := h.unique (hfirst.bind_none k)
    exact Or.inl ⟨rfl, hfirst⟩
  | some a =>
    obtain ⟨output', second, rest', events₂, hsecond⟩ := hk a middle
    obtain ⟨rfl, rfl, rfl, rfl⟩ := h.unique (hfirst.bind hsecond)
    obtain rfl := hsecond.text_eq
    exact Or.inr ⟨a, first, second, events₁, events₂, rfl, rfl, hfirst, hsecond⟩

theorem Yields.of_attempt {p : Scan α} (hp : p.Local) {text consumed rest : List Char}
    {output : Option α} {events : List Event}
    (h : p.attempt.Yields text output consumed rest events) :
    (∃ a, output = some a ∧ p.Yields text output consumed rest events) ∨
      (output = none ∧ consumed = [] ∧ ∃ passed left, p.Yields text none passed left events) := by
  obtain ⟨output', passed, left, events', hyields⟩ := hp text
  cases output' with
  | none =>
    obtain ⟨rfl, rfl, -, rfl⟩ := h.unique hyields.attempt_none
    exact Or.inr ⟨rfl, rfl, passed, left, hyields⟩
  | some a =>
    obtain ⟨rfl, rfl, rfl, rfl⟩ := h.unique hyields.attempt_some
    exact Or.inl ⟨a, rfl, hyields⟩

end Scan

/-! ## Every parser is local -/

namespace Parser

variable {α : Type}

/-- **Locality.** What a parser does is decided by the text ahead of the cursor. -/
theorem local_run (p : Parser α) : p.run.Local :=
  run_induction (motive := fun s ↦ s.Local) (Scan.local_read Reading.eq_append_of_integer)
    (Scan.local_read Reading.eq_append_of_float) (Scan.local_read Reading.eq_append_of_anyChar)
    (fun _ ↦ Scan.local_read Reading.eq_append_of_literal) Scan.local_pure Scan.local_fail
    (fun _ _ hp hk ↦ hp.bind hk) (fun _ hp ↦ hp.attempt) p

/-- Induction over what parsers do, with the locality of the parts at hand. -/
theorem local_induction {motive : ∀ {α : Type}, Scan α → Prop}
    (hinteger : motive (Scan.read Reading.integer))
    (hfloat : motive (Scan.read Reading.float))
    (hanyChar : motive (Scan.read Reading.anyChar))
    (hliteral : ∀ expected, motive (Scan.read (Reading.literal expected)))
    (hpure : ∀ {α : Type} (a : α), motive (pure a : Scan α))
    (hfail : ∀ {α : Type}, motive (Scan.fail : Scan α))
    (hbind : ∀ {α β : Type} (p : Scan α) (k : α → Scan β), p.Local → (∀ a, (k a).Local) → motive p →
      (∀ a, motive (k a)) → motive (p >>= k))
    (hattempt : ∀ {α : Type} (p : Scan α), p.Local → motive p → motive p.attempt)
    (p : Parser α) : motive p.run := by
  have hboth : p.run.Local ∧ motive p.run :=
    run_induction (motive := fun s ↦ s.Local ∧ motive s)
      ⟨Scan.local_read Reading.eq_append_of_integer, hinteger⟩
      ⟨Scan.local_read Reading.eq_append_of_float, hfloat⟩
      ⟨Scan.local_read Reading.eq_append_of_anyChar, hanyChar⟩
      (fun expected ↦ ⟨Scan.local_read Reading.eq_append_of_literal, hliteral expected⟩)
      (fun a ↦ ⟨Scan.local_pure a, hpure a⟩)
      ⟨Scan.local_fail, hfail⟩
      (fun q k hq hk ↦ ⟨hq.1.bind fun a ↦ (hk a).1,
        hbind q k hq.1 (fun a ↦ (hk a).1) hq.2 fun a ↦ (hk a).2⟩)
      (fun q hq ↦ ⟨hq.1.attempt, hattempt q hq.1 hq.2⟩) p
  exact hboth.2

/-! ## Running at the start of a text -/

/-- The outcome of a parser at the start of a text. -/
theorem run_start_eq {p : Parser α} {text : String} {output : Option α} {consumed rest : List Char}
    {events : List Event} (h : p.run.Yields text.toList output consumed rest events) :
    p.run (Cursor.start text) = ⟨output, (Cursor.start text).past consumed, events⟩ :=
  h.apply_eq _ (Cursor.onBoundary_start text).inBounds (Cursor.rest_start text)

theorem runOn_eq {p : Parser α} {text : String} {output : Option α} {consumed rest : List Char}
    {events : List Event} (h : p.run.Yields text.toList output consumed rest events) :
    p.runOn text = (output, String.ofList rest) := by
  have hahead : (Cursor.start text).rest = consumed ++ rest :=
    (Cursor.rest_start text).trans h.text_eq
  rw [runOn, run_start_eq h, Cursor.remaining, Cursor.rest_past hahead]

theorem exists_yields_of_runOn {p : Parser α} {text rest : String} {output : Option α}
    (h : p.runOn text = (output, rest)) :
    ∃ consumed events, p.run.Yields text.toList output consumed rest.toList events := by
  obtain ⟨output', consumed, left, events, hyields⟩ := p.local_run text.toList
  obtain ⟨rfl, rfl⟩ := Prod.mk.inj ((runOn_eq hyields).symm.trans h)
  rw [String.toList_ofList]
  exact ⟨consumed, events, hyields⟩

/-- The text that is left decides whether a whole text is accepted. -/
theorem parseReporting_eq {p : Parser α} {text : String} {output : Option α}
    {consumed rest : List Char} {events : List Event}
    (h : p.run.Yields text.toList output consumed rest events) :
    p.parseReporting text =
      match output with
      | none => ⟨none, events ++ [.noMatch text.utf8ByteSize]⟩
      | some a =>
        if rest = [] then ⟨some a, events⟩
        else ⟨none, events ++ [.trailingInput (byteSize consumed) (byteSize rest)]⟩ := by
  have hahead : (Cursor.start text).rest = consumed ++ rest :=
    (Cursor.rest_start text).trans h.text_eq
  have hleft : ((Cursor.start text).past consumed).rest = rest := Cursor.rest_past hahead
  -- the cursor is on a boundary, so it has reached the end exactly if nothing is left
  have hboundary := (Cursor.onBoundary_start text).past hahead
  rw [parseReporting, run_start_eq h]
  cases output with
  | none => rfl
  | some a =>
    by_cases hrest : rest = []
    · have hempty : ((Cursor.start text).past consumed).isEmpty :=
        hboundary.isEmpty_iff.mpr (hleft.trans hrest)
      simp only [if_pos hempty, if_pos hrest]
    · have hempty : ¬ ((Cursor.start text).past consumed).isEmpty := fun hend ↦
        hrest (hleft.symm.trans (hboundary.isEmpty_iff.mp hend))
      have hoffset : ((Cursor.start text).past consumed).offset = byteSize consumed :=
        Nat.zero_add _
      simp only [if_neg hempty, if_neg hrest, Cursor.remaining, hleft, utf8ByteSize_ofList, hoffset]

/-- A whole text is accepted exactly if all of it is consumed. -/
theorem parse_eq_some_iff {p : Parser α} {text : String} {a : α} :
    p.parse text = some a ↔ ∃ events, p.run.Yields text.toList (some a) text.toList [] events := by
  constructor
  · intro h
    obtain ⟨output, consumed, rest, events, hyields⟩ := p.local_run text.toList
    rw [parse, parseReporting_eq hyields] at h
    cases output with
    | none => cases h
    | some b =>
      by_cases hrest : rest = []
      · subst hrest
        simp only [if_pos] at h
        obtain rfl := Option.some.inj h
        have hall : text.toList = consumed := by rw [hyields.text_eq, List.append_nil]
        exact ⟨events, hall ▸ hyields⟩
      · simp only [if_neg hrest] at h
        cases h
  · rintro ⟨events, hyields⟩
    rw [parse, parseReporting_eq hyields]
    rfl

end Parser

end PrefixParsing
