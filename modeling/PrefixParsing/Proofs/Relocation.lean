import PrefixParsing.Proofs.Locality

/-!
# Runs at different places

The same text can be ahead of many cursors, in different texts and at different offsets. A run does
not tell them apart: it gives the same output, reports the same events and advances by the same
number of bytes. So a run in the middle of a text is the run at the start of the text ahead, moved
to where the cursor stands (`Outcome.movedTo`).

## Inside a character

A cursor inside a character sees nothing ahead, although its text goes on. Locality does not ask for
a boundary, so a run there is a run at the end of a text, and there it stays: with nothing ahead
there is nothing to pass.
-/

namespace PrefixParsing

variable {α : Type}

/-! ## Two runs side by side -/

namespace Outcome

/-- The outcome of a run at the start of a text, moved to where `c` stands. -/
def movedTo (outcome : Outcome α) (c : Cursor) : Outcome α :=
  { outcome with cursor := { c with offset := c.offset + outcome.cursor.offset } }

/-- `o₁` at `c₁` and `o₂` at `c₂` are what becomes of one run at two places. -/
structure SameCourse (c₁ : Cursor) (o₁ : Outcome α) (c₂ : Cursor) (o₂ : Outcome α) : Prop where
  output_eq : o₁.output = o₂.output
  events_eq : o₁.events = o₂.events
  /-- Each cursor stays in its text. -/
  source_eq : o₁.cursor.source = c₁.source ∧ o₂.cursor.source = c₂.source
  /-- Both advance by the same number of bytes. -/
  advanced : ∃ n, o₁.cursor.offset = c₁.offset + n ∧ o₂.cursor.offset = c₂.offset + n
  remaining_eq : o₁.cursor.remaining = o₂.cursor.remaining

end Outcome

namespace Cursor

/-- The cursor at the end of `source`. -/
def finish (source : String) : Cursor := ⟨source, source.utf8ByteSize⟩

theorem onBoundary_finish (source : String) : (finish source).OnBoundary := by
  rw [OnBoundary, finish, Text.utf8ByteSize_eq]
  exact Text.isBoundary_byteSize source.toList

@[simp] theorem rest_finish (source : String) : (finish source).rest = [] :=
  (onBoundary_finish source).isEmpty_iff.mp (decide_eq_true (Nat.le_refl _))

theorem remaining_inj {c₁ c₂ : Cursor} : c₁.remaining = c₂.remaining ↔ c₁.rest = c₂.rest := by
  rw [remaining, remaining, String.ofList_inj]

@[simp] theorem rest_start_remaining (c : Cursor) : (start c.remaining).rest = c.rest := by
  rw [rest_start, remaining, String.toList_ofList]

theorem remaining_past {c : Cursor} {a b : List Char} (h : c.rest = a ++ b) :
    (c.past a).remaining = String.ofList b := by
  rw [remaining, rest_past h]

end Cursor

namespace Scan

variable {s : Scan α}

theorem Local.sameCourse (hs : s.Local) {c₁ c₂ : Cursor} (hc₁ : c₁.InBounds) (hc₂ : c₂.InBounds)
    (h : c₁.rest = c₂.rest) : Outcome.SameCourse c₁ (s c₁) c₂ (s c₂) := by
  obtain ⟨output, consumed, rest, events, hyields⟩ := hs c₁.rest
  have h₁ : c₁.rest = consumed ++ rest := hyields.text_eq
  have h₂ : c₂.rest = consumed ++ rest := h.symm.trans h₁
  rw [hyields.apply_eq c₁ hc₁ rfl, hyields.apply_eq c₂ hc₂ h.symm]
  exact
    { output_eq := rfl
      events_eq := rfl
      source_eq := ⟨rfl, rfl⟩
      advanced := ⟨Text.byteSize consumed, rfl, rfl⟩
      remaining_eq := (Cursor.remaining_past h₁).trans (Cursor.remaining_past h₂).symm }

/-- A run is the run at the start of the text ahead, moved to the cursor. -/
theorem Local.apply_eq_movedTo (hs : s.Local) {c : Cursor} (hc : c.InBounds) :
    s c = (s (Cursor.start c.remaining)).movedTo c := by
  obtain ⟨output, consumed, rest, events, hyields⟩ := hs c.rest
  rw [hyields.apply_eq c hc rfl, hyields.apply_eq _ (Cursor.onBoundary_start _).inBounds
    c.rest_start_remaining]
  show _ = (⟨output, ⟨c.source, c.offset + (0 + Text.byteSize consumed)⟩, events⟩ : Outcome α)
  rw [Nat.zero_add]
  rfl

/-- With nothing ahead, a scan stays. -/
theorem Local.cursor_eq_of_rest_eq_nil (hs : s.Local) {c : Cursor} (hc : c.InBounds)
    (h : c.rest = []) : (s c).cursor = c := by
  obtain ⟨output, consumed, rest, events, hyields⟩ := hs c.rest
  obtain ⟨rfl, -⟩ := List.append_eq_nil_iff.mp (hyields.text_eq.symm.trans h)
  rw [hyields.apply_eq c hc rfl, Cursor.past_nil]

end Scan

/-! ## Runs of parsers -/

namespace Parser

/-- **Runs see the text ahead and nothing else.** At two cursors in bounds with the same text ahead,
between two characters or not, a parser takes the same course. So its run is the run on the text
ahead, moved to the cursor; and inside a character it is the run at the end of any text. -/
theorem sameCourse_of_remaining_eq (p : Parser α) :
    (∀ c₁ c₂ : Cursor, c₁.InBounds → c₂.InBounds → c₁.remaining = c₂.remaining →
      Outcome.SameCourse c₁ (p.run c₁) c₂ (p.run c₂)) ∧
    (∀ c : Cursor, c.InBounds →
      p.run c = (p.run (Cursor.start c.remaining)).movedTo c ∧
      p.runOn c.remaining = ((p.run c).output, (p.run c).cursor.remaining)) ∧
    ∀ (c : Cursor) (text : String), c.InBounds → ¬ c.OnBoundary →
      Outcome.SameCourse c (p.run c) (Cursor.finish text) (p.run (Cursor.finish text)) ∧
      (p.run c).cursor = c ∧ (p.run (Cursor.finish text)).cursor = Cursor.finish text := by
  have hlocal := p.local_run
  refine ⟨fun c₁ c₂ hc₁ hc₂ h ↦ ?_, fun c hc ↦ ⟨?_, ?_⟩, fun c text hc hboundary ↦ ?_⟩
  · exact hlocal.sameCourse hc₁ hc₂ (Cursor.remaining_inj.mp h)
  · exact hlocal.apply_eq_movedTo hc
  · have hcourse := hlocal.sameCourse (Cursor.onBoundary_start c.remaining).inBounds hc
      c.rest_start_remaining
    exact Prod.ext hcourse.output_eq hcourse.remaining_eq
  · have hrest : c.rest = [] := Cursor.rest_eq_nil_of_not_onBoundary hboundary
    have hend := (Cursor.onBoundary_finish text).inBounds
    exact ⟨hlocal.sameCourse hc hend (hrest.trans (Cursor.rest_finish text).symm),
      hlocal.cursor_eq_of_rest_eq_nil hc hrest,
      hlocal.cursor_eq_of_rest_eq_nil hend (Cursor.rest_finish text)⟩

/-- A failure behind a number, with the number in the middle of one text and at the start of
another; and a run inside a character of two bytes. -/
theorem sameCourse_of_remaining_eq_behind_number :
    (⟨"é12x", 2⟩ : Cursor).remaining = (⟨"12x", 0⟩ : Cursor).remaining ∧
      Outcome.SameCourse ⟨"é12x", 2⟩ ((integer.zip (literal "y")).run ⟨"é12x", 2⟩)
        ⟨"12x", 0⟩ ((integer.zip (literal "y")).run ⟨"12x", 0⟩) ∧
      (integer.zip (literal "y")).run ⟨"é12x", 2⟩ =
        ((integer.zip (literal "y")).run (Cursor.start "12x")).movedTo ⟨"é12x", 2⟩ ∧
      ((integer.zip (literal "y")).run ⟨"é12x", 2⟩).cursor = ⟨"é12x", 4⟩ ∧
      ¬ (⟨"é12x", 1⟩ : Cursor).OnBoundary ∧
      (anyChar.run ⟨"é12x", 1⟩).cursor = ⟨"é12x", 1⟩ := by
  have hahead : (⟨"é12x", 2⟩ : Cursor).remaining = "12x" := by decide +kernel
  have hremaining : (⟨"é12x", 2⟩ : Cursor).remaining = (⟨"12x", 0⟩ : Cursor).remaining := by
    rw [hahead]
    decide +kernel
  have hmiddle : (⟨"é12x", 2⟩ : Cursor).InBounds := by
    show 2 ≤ "é12x".utf8ByteSize
    decide +kernel
  have hinside : (⟨"é12x", 1⟩ : Cursor).InBounds := Nat.le_trans (Nat.le_succ 1) hmiddle
  have hboundary : ¬ (⟨"é12x", 1⟩ : Cursor).OnBoundary :=
    Text.cut_eq_none_iff.mp (by decide +kernel)
  obtain ⟨hsame, hmoved, -⟩ := sameCourse_of_remaining_eq (integer.zip (literal "y"))
  have hmiddleMoved := (hmoved _ hmiddle).1
  rw [hahead] at hmiddleMoved
  obtain ⟨-, -, hstay⟩ := sameCourse_of_remaining_eq anyChar
  exact ⟨hremaining, hsame _ _ hmiddle (Cursor.onBoundary_start "12x").inBounds hremaining,
    hmiddleMoved, by decide +kernel, hboundary, (hstay _ "" hinside hboundary).2.1⟩

end Parser

end PrefixParsing
