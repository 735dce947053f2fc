import PrefixParsing.Proofs.Locality

/-!
# Attempts decide nothing

An attempt goes back when its parser fails. What it changes is where the cursor stands after a
failure, and no parser ever looks at that: a failure ends every sequence around it. So attempts can
be taken out of a parser, any of them, and also out of the parsers that its outputs choose. Outputs
and events stay, the cursor stays where it was after a success, and after a failure it may only
stand further ahead.

## The relation between the scans

`Scan.Rewinds p q` is what is left of the relation between the two parsers once their structure is
forgotten: they succeed alike, or both fail and `p` has passed a start of what `q` has passed. It is
kept by sequence, since after a success the two have the same text ahead. That is all that the
constructors of parsers are made of, so the induction over `Parser.Erases` is one line for each.
-/

namespace PrefixParsing

variable {α β : Type}

namespace Scan

/-- `p` does what `q` does, but may stand further back after a failure. -/
def Rewinds (p q : Scan α) : Prop :=
  ∀ text,
    (∃ a consumed rest events, p.Yields text (some a) consumed rest events ∧
      q.Yields text (some a) consumed rest events) ∨
    ∃ passed left passed' left' events, p.Yields text none passed left events ∧
      q.Yields text none passed' left' events ∧ passed <+: passed'

theorem Local.rewinds_self {p : Scan α} (hp : p.Local) : p.Rewinds p := by
  intro text
  obtain ⟨output, consumed, rest, events, hyields⟩ := hp text
  cases output with
  | none => exact Or.inr ⟨_, _, _, _, _, hyields, hyields, List.prefix_refl _⟩
  | some a => exact Or.inl ⟨_, _, _, _, hyields, hyields⟩

theorem Rewinds.bind {p q : Scan α} {k l : α → Scan β} (hpq : p.Rewinds q)
    (hkl : ∀ a, (k a).Rewinds (l a)) : (p >>= k).Rewinds (q >>= l) := by
  intro text
  rcases hpq text with ⟨a, consumed, middle, events, hp, hq⟩ | ⟨_, _, _, _, _, hp, hq, hpassed⟩
  -- after a success both go on with the same text, behind the same characters
  · rcases hkl a middle with ⟨b, _, _, _, hk, hl⟩ | ⟨_, _, _, _, _, hk, hl, hpassed⟩
    · exact Or.inl ⟨b, _, _, _, hp.bind hk, hq.bind hl⟩
    · exact Or.inr ⟨_, _, _, _, _, hp.bind hk, hq.bind hl,
        (List.prefix_append_right_inj consumed).mpr hpassed⟩
  · exact Or.inr ⟨_, _, _, _, _, hp.bind_none k, hq.bind_none l, hpassed⟩

theorem Rewinds.attempt {p q : Scan α} (hpq : p.Rewinds q) : p.attempt.Rewinds q.attempt := by
  intro text
  rcases hpq text with ⟨a, _, _, _, hp, hq⟩ | ⟨_, _, _, _, _, hp, hq, -⟩
  · exact Or.inl ⟨a, _, _, _, hp.attempt_some, hq.attempt_some⟩
  · exact Or.inr ⟨_, _, _, _, _, hp.attempt_none, hq.attempt_none, List.prefix_refl _⟩

/-- An attempt may be left out: it has passed nothing after a failure. -/
theorem Rewinds.attempt_left {p q : Scan α} (hpq : p.Rewinds q) : p.attempt.Rewinds q := by
  intro text
  rcases hpq text with ⟨a, _, _, _, hp, hq⟩ | ⟨_, _, _, _, _, hp, hq, -⟩
  · exact Or.inl ⟨a, _, _, _, hp.attempt_some, hq⟩
  · exact Or.inr ⟨_, _, _, _, _, hp.attempt_none, hq, List.nil_prefix⟩

theorem Rewinds.at_cursor {p q : Scan α} (hpq : p.Rewinds q) {c : Cursor} (hc : c.InBounds) :
    (p c).output = (q c).output ∧ (p c).events = (q c).events ∧
      ((p c).output.isSome → (p c).cursor = (q c).cursor) ∧
      ((p c).output = none →
        c.offset ≤ (p c).cursor.offset ∧ (p c).cursor.offset ≤ (q c).cursor.offset) := by
  rcases hpq c.rest with ⟨a, consumed, _, _, hp, hq⟩ | ⟨passed, _, _, _, _, hp, hq, more, rfl⟩
  · rw [hp.apply_eq c hc rfl, hq.apply_eq c hc rfl]
    exact ⟨rfl, rfl, fun _ ↦ rfl, fun hnone ↦ nomatch hnone⟩
  · rw [hp.apply_eq c hc rfl, hq.apply_eq c hc rfl]
    refine ⟨rfl, rfl, (fun hsome ↦ nomatch hsome), fun _ ↦ ?_⟩
    rw [Cursor.past_offset, Cursor.past_offset, Text.byteSize_append]
    omega

end Scan

namespace Parser

/-- `Erases p q` says that `q` is `p` with some of its attempts left out, wherever they stand. -/
inductive Erases : {α : Type} → Parser α → Parser α → Prop where
  /-- None is left out. -/
  | refl {α : Type} (p : Parser α) : Erases p p
  /-- The outermost one is left out. -/
  | erase {α : Type} {p q : Parser α} (h : Erases p q) : Erases p.attempt q
  /-- The outermost one is kept. -/
  | attempt {α : Type} {p q : Parser α} (h : Erases p q) : Erases p.attempt q.attempt
  | map {α β : Type} (f : α → β) {p q : Parser α} (h : Erases p q) : Erases (p.map f) (q.map f)
  /-- Those in the parsers that the output chooses may be left out as well. -/
  | flatMap {α β : Type} {p q : Parser α} {k l : α → Parser β} (h : Erases p q)
      (hnext : ∀ a, Erases (k a) (l a)) : Erases (p.flatMap k) (q.flatMap l)
  | zip {α β : Type} {p₁ q₁ : Parser α} {p₂ q₂ : Parser β} (h₁ : Erases p₁ q₁)
      (h₂ : Erases p₂ q₂) : Erases (p₁.zip p₂) (q₁.zip q₂)
  | zip3 {α β γ : Type} {p₁ q₁ : Parser α} {p₂ q₂ : Parser β} {p₃ q₃ : Parser γ}
      (h₁ : Erases p₁ q₁) (h₂ : Erases p₂ q₂) (h₃ : Erases p₃ q₃) :
      Erases (p₁.zip3 p₂ p₃) (q₁.zip3 q₂ q₃)
  | zip4 {α β γ δ : Type} {p₁ q₁ : Parser α} {p₂ q₂ : Parser β} {p₃ q₃ : Parser γ}
      {p₄ q₄ : Parser δ} (h₁ : Erases p₁ q₁) (h₂ : Erases p₂ q₂) (h₃ : Erases p₃ q₃)
      (h₄ : Erases p₄ q₄) : Erases (p₁.zip4 p₂ p₃ p₄) (q₁.zip4 q₂ q₃ q₄)
  | zip5 {α β γ δ ε : Type} {p₁ q₁ : Parser α} {p₂ q₂ : Parser β} {p₃ q₃ : Parser γ}
      {p₄ q₄ : Parser δ} {p₅ q₅ : Parser ε} (h₁ : Erases p₁ q₁) (h₂ : Erases p₂ q₂)
      (h₃ : Erases p₃ q₃) (h₄ : Erases p₄ q₄) (h₅ : Erases p₅ q₅) :
      Erases (p₁.zip5 p₂ p₃ p₄ p₅) (q₁.zip5 q₂ q₃ q₄ q₅)
  | zip6 {α β γ δ ε ζ : Type} {p₁ q₁ : Parser α} {p₂ q₂ : Parser β} {p₃ q₃ : Parser γ}
      {p₄ q₄ : Parser δ} {p₅ q₅ : Parser ε} {p₆ q₆ : Parser ζ} (h₁ : Erases p₁ q₁)
      (h₂ : Erases p₂ q₂) (h₃ : Erases p₃ q₃) (h₄ : Erases p₄ q₄) (h₅ : Erases p₅ q₅)
      (h₆ : Erases p₆ q₆) : Erases (p₁.zip6 p₂ p₃ p₄ p₅ p₆) (q₁.zip6 q₂ q₃ q₄ q₅ q₆)
  | zip7 {α β γ δ ε ζ η : Type} {p₁ q₁ : Parser α} {p₂ q₂ : Parser β} {p₃ q₃ : Parser γ}
      {p₄ q₄ : Parser δ} {p₅ q₅ : Parser ε} {p₆ q₆ : Parser ζ} {p₇ q₇ : Parser η}
      (h₁ : Erases p₁ q₁) (h₂ : Erases p₂ q₂) (h₃ : Erases p₃ q₃) (h₄ : Erases p₄ q₄)
      (h₅ : Erases p₅ q₅) (h₆ : Erases p₆ q₆) (h₇ : Erases p₇ q₇) :
      Erases (p₁.zip7 p₂ p₃ p₄ p₅ p₆ p₇) (q₁.zip7 q₂ q₃ q₄ q₅ q₆ q₇)
  | keepLeft {α β : Type} {p₁ q₁ : Parser α} {p₂ q₂ : Parser β} (h₁ : Erases p₁ q₁)
      (h₂ : Erases p₂ q₂) : Erases (p₁.keepLeft p₂) (q₁.keepLeft q₂)
  | keepRight {α β : Type} {p₁ q₁ : Parser α} {p₂ q₂ : Parser β} (h₁ : Erases p₁ q₁)
      (h₂ : Erases p₂ q₂) : Erases (p₁.keepRight p₂) (q₁.keepRight q₂)
  | skipBoth {α β : Type} {p₁ q₁ : Parser α} {p₂ q₂ : Parser β} (h₁ : Erases p₁ q₁)
      (h₂ : Erases p₂ q₂) : Erases (p₁.skipBoth p₂) (q₁.skipBoth q₂)
  | apply {α β : Type} {p₁ q₁ : Parser (α → β)} {p₂ q₂ : Parser α} (h₁ : Erases p₁ q₁)
      (h₂ : Erases p₂ q₂) : Erases (p₁.apply p₂) (q₁.apply q₂)
  | sealed {α : Type} {p q : Parser α} (h : Erases p q) : Erases p.sealed q.sealed

/-- **Simulation.** Parsers that differ in attempts differ only in where they stand after a
failure. -/
theorem Erases.rewinds_run {p q : Parser α} (h : Erases p q) : p.run.Rewinds q.run := by
  have hpure : ∀ {α : Type} (a : α), (pure a : Scan α).Rewinds (pure a) := fun a ↦
    (Scan.local_pure a).rewinds_self
  induction h with
  | refl p => exact p.local_run.rewinds_self
  | erase _ ih => exact ih.attempt_left
  | attempt _ ih => exact ih.attempt
  | map f _ ih => exact ih.bind fun _ ↦ hpure _
  | flatMap _ _ ih ihnext => exact ih.bind ihnext
  | zip _ _ ih₁ ih₂ => exact ih₁.bind fun _ ↦ ih₂.bind fun _ ↦ hpure _
  | zip3 _ _ _ ih₁ ih₂ ih₃ =>
    exact ih₁.bind fun _ ↦ ih₂.bind fun _ ↦ ih₃.bind fun _ ↦ hpure _
  | zip4 _ _ _ _ ih₁ ih₂ ih₃ ih₄ =>
    exact ih₁.bind fun _ ↦ ih₂.bind fun _ ↦ ih₃.bind fun _ ↦ ih₄.bind fun _ ↦ hpure _
  | zip5 _ _ _ _ _ ih₁ ih₂ ih₃ ih₄ ih₅ =>
    exact ih₁.bind fun _ ↦ ih₂.bind fun _ ↦ ih₃.bind fun _ ↦ ih₄.bind fun _ ↦ ih₅.bind fun _ ↦
      hpure _
  | zip6 _ _ _ _ _ _ ih₁ ih₂ ih₃ ih₄ ih₅ ih₆ =>
    exact ih₁.bind fun _ ↦ ih₂.bind fun _ ↦ ih₃.bind fun _ ↦ ih₄.bind fun _ ↦ ih₅.bind fun _ ↦
      ih₆.bind fun _ ↦ hpure _
  | zip7 _ _ _ _ _ _ _ ih₁ ih₂ ih₃ ih₄ ih₅ ih₆ ih₇ =>
    exact ih₁.bind fun _ ↦ ih₂.bind fun _ ↦ ih₃.bind fun _ ↦ ih₄.bind fun _ ↦ ih₅.bind fun _ ↦
      ih₆.bind fun _ ↦ ih₇.bind fun _ ↦ hpure _
  | keepLeft _ _ ih₁ ih₂ => exact ih₁.bind fun _ ↦ ih₂.bind fun _ ↦ hpure _
  | keepRight _ _ ih₁ ih₂ => exact ih₁.bind fun _ ↦ ih₂
  | skipBoth _ _ ih₁ ih₂ => exact ih₁.bind fun _ ↦ ih₂.bind fun _ ↦ hpure _
  | apply _ _ ih₁ ih₂ => exact ih₁.bind fun _ ↦ ih₂.bind fun _ ↦ hpure _
  | sealed _ ih => exact ih

theorem parseReporting_eq_of_rewinds {p q : Parser α} (h : p.run.Rewinds q.run) (text : String) :
    p.parseReporting text = q.parseReporting text := by
  rcases h text.toList with ⟨a, _, _, _, hp, hq⟩ | ⟨_, _, _, _, _, hp, hq, -⟩
  · rw [parseReporting_eq hp, parseReporting_eq hq]
  · rw [parseReporting_eq hp, parseReporting_eq hq]

/-- **Attempts can be left out.** At every cursor in bounds, outputs and events stay, a success
leaves the cursor where it was, and a failure leaves it no further back. Every text is parsed as
before, with the same report. -/
theorem run_and_parse_eq_of_erases {p q : Parser α} (h : Erases p q) :
    (∀ c : Cursor, c.InBounds →
      (p.run c).output = (q.run c).output ∧ (p.run c).events = (q.run c).events ∧
      ((p.run c).output.isSome → (p.run c).cursor = (q.run c).cursor) ∧
      ((p.run c).output = none →
        c.offset ≤ (p.run c).cursor.offset ∧
          (p.run c).cursor.offset ≤ (q.run c).cursor.offset)) ∧
    ∀ text, p.parseReporting text = q.parseReporting text ∧ p.parse text = q.parse text := by
  refine ⟨fun c hc ↦ h.rewinds_run.at_cursor hc, fun text ↦ ?_⟩
  have hreport := parseReporting_eq_of_rewinds h.rewinds_run text
  exact ⟨hreport, congrArg Result.output hreport⟩

/-- A character, the same character again, and a number. -/
def echo : Parser (Unit × Int) :=
  anyChar.flatMap fun c ↦ (literal (String.singleton c)).zip integer

/-- The same, going back to behind the first character on a failure. -/
def echoAttempt : Parser (Unit × Int) :=
  anyChar.flatMap fun c ↦ ((literal (String.singleton c)).zip integer).attempt

/-- An attempt in the parser that an output chooses: where it goes back, over a character of two
bytes, and what is parsed all the same. -/
theorem run_and_parse_eq_of_erases_echo :
    Erases echoAttempt echo ∧ (Cursor.start "ééx").InBounds ∧
      (echo.run (Cursor.start "ééx")).output = none ∧
      (echoAttempt.run (Cursor.start "ééx")).cursor.offset = 2 ∧
      (echo.run (Cursor.start "ééx")).cursor.offset = 4 ∧ echo.parse "éé7" = some ((), 7) := by
  have herases : Erases echoAttempt echo := .flatMap (.refl _) fun _ ↦ .erase (.refl _)
  have hc : (Cursor.start "ééx").InBounds := (Cursor.onBoundary_start _).inBounds
  obtain ⟨hrun, hparse⟩ := run_and_parse_eq_of_erases herases
  have hfail : (echoAttempt.run (Cursor.start "ééx")).output = none := by decide +kernel
  have hvalue : echoAttempt.parse "éé7" = some ((), 7) := by decide +kernel
  exact ⟨herases, hc, (hrun _ hc).1.symm.trans hfail, by decide +kernel, by decide +kernel,
    (hparse "éé7").2.symm.trans hvalue⟩

end Parser

end PrefixParsing
