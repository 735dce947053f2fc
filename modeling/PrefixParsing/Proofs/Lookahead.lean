import PrefixParsing.Proofs.Locality
import PrefixParsing.Proofs.Readings

/-!
# One character of lookahead

A parser that succeeds has looked at what it consumed and at no more than one character behind it:
only a run of number characters has to see where it stops. So the text behind what was consumed can
be exchanged, as long as its first character is the same or cannot go on with a number.

## What has to be carried through a sequence

`StandsInFor` is the condition on the two texts behind. The first part of a sequence is followed by
what the second part consumes, and then by the text behind. If the second part consumes something,
the first character is the same in both cases, and if it consumes nothing, the condition on the
texts behind is the condition itself. Both are `StandsInFor.append`.
-/

namespace PrefixParsing

open Text

/-- `rest'` can replace `rest` behind a number: it starts as `rest` does, or with a character that
is no part of a number, or it is empty. -/
def StandsInFor (rest' rest : List Char) : Prop :=
  ∀ x, rest'.head? = some x → rest.head? = some x ∨ Reading.isFractionChar x = false

theorem StandsInFor.append {rest rest' : List Char} (h : StandsInFor rest' rest)
    (chars : List Char) : StandsInFor (chars ++ rest') (chars ++ rest) := by
  cases chars with
  | nil => exact h
  | cons x chars => exact fun y hy ↦ Or.inl hy

theorem standsInFor_nil (rest : List Char) : StandsInFor [] rest := fun _ hx ↦ nomatch hx

/-- A run of number characters stops where it did. -/
theorem StandsInFor.isLeadingRun {accept : Char → Bool} {run rest rest' : List Char}
    (h : StandsInFor rest' rest) (hrun : IsLeadingRun accept run rest)
    (haccept : ∀ x, accept x = true → Reading.isFractionChar x = true) :
    IsLeadingRun accept run rest' := by
  refine ⟨hrun.accepted, fun x hx ↦ ?_⟩
  rcases h x hx with hsame | hother
  · exact hrun.refused x hsame
  · rw [Bool.eq_false_iff]
    intro hx'
    rw [haccept x hx'] at hother
    cases hother

theorem standsInFor_of_head? {left left' : List Char}
    (h : left' = [] ∨ left'.head? = left.head? ∨
      ∃ x, left'.head? = some x ∧ x.isDigit = false ∧ x ≠ '.') : StandsInFor left' left := by
  intro y hy
  rcases h with rfl | hsame | ⟨x, hx, hdigit, hpoint⟩
  · cases hy
  · exact Or.inl (hsame ▸ hy)
  · obtain rfl := Option.some.inj (hx.symm.trans hy)
    exact Or.inr (by simp [Reading.isFractionChar, hdigit, hpoint])

namespace Reading

variable {lexeme rest rest' : List Char}

theorem isFractionChar_of_isDigit (x : Char) (h : x.isDigit = true) : isFractionChar x = true := by
  rw [isFractionChar, h, Bool.true_or]

theorem integer_eq_found_of_standsInFor {n : Int} (h : integer (lexeme ++ rest) = .found lexeme n)
    (hrest : StandsInFor rest' rest) : integer (lexeme ++ rest') = .found lexeme n := by
  have hrun := isLeadingRun_of_integer h
  have hrun' := hrest.isLeadingRun hrun isFractionChar_of_isDigit
  rw [integer_append hrun', ← integer_append hrun, h]

theorem float_eq_found_of_standsInFor {x : Binary64} (h : float (lexeme ++ rest) = .found lexeme x)
    (hrest : StandsInFor rest' rest) : float (lexeme ++ rest') = .found lexeme x := by
  have hrun := isLeadingRun_of_float h
  have hrun' := hrest.isLeadingRun hrun fun _ hx ↦ hx
  rw [float_append hrun', ← float_append hrun, h]

theorem anyChar_eq_found_append {c : Char} (h : anyChar (lexeme ++ rest) = .found lexeme c)
    (rest' : List Char) : anyChar (lexeme ++ rest') = .found lexeme c :=
  anyChar_eq_found_iff.mpr (anyChar_eq_found_iff.mp h)

theorem literal_eq_found_append {expected : String} {u : Unit}
    (h : literal expected (lexeme ++ rest) = .found lexeme u) (rest' : List Char) :
    literal expected (lexeme ++ rest') = .found lexeme u :=
  literal_eq_found_iff.mpr (literal_eq_found_iff.mp h)

end Reading

/-! ## Scans -/

namespace Scan

/-- A success of `s` does not depend on what is behind the consumed text, beyond the first
character. -/
def LooksOneAhead {α : Type} (s : Scan α) : Prop :=
  ∀ {consumed rest rest' : List Char} {a : α} {events : List Event}, StandsInFor rest' rest →
    s.Yields (consumed ++ rest) (some a) consumed rest events →
    s.Yields (consumed ++ rest') (some a) consumed rest' events

variable {α β : Type}

theorem looksOneAhead_pure (a : α) : (pure a : Scan α).LooksOneAhead := by
  intro consumed rest rest' b events _ h
  obtain ⟨ha, rfl, -, rfl⟩ := (yields_pure a (consumed ++ rest)).unique h
  rw [← ha]
  exact yields_pure a rest'

theorem looksOneAhead_fail : (fail : Scan α).LooksOneAhead := by
  intro consumed rest rest' a events _ h
  exact absurd (h.unique (yields_fail _)).1 (by simp)

theorem looksOneAhead_read {look : List Char → Reading α} (hlook : ReadsStart look)
    (h : ∀ {lexeme rest rest' : List Char} {a : α}, look (lexeme ++ rest) = .found lexeme a →
      StandsInFor rest' rest → look (lexeme ++ rest') = .found lexeme a) :
    (read look).LooksOneAhead := by
  intro consumed rest rest' a events hrest hyields
  rcases hyields.of_read hlook with ⟨b, hb, hfound, rfl⟩ | ⟨_, hnone, -⟩
  · obtain rfl := Option.some.inj hb
    exact yields_read_of_found (h hfound hrest)
  · cases hnone

theorem LooksOneAhead.bind {p : Scan α} {k : α → Scan β} (hp : p.Local) (hk : ∀ a, (k a).Local)
    (hpahead : p.LooksOneAhead) (hkahead : ∀ a, (k a).LooksOneAhead) :
    (p >>= k).LooksOneAhead := by
  intro consumed rest rest' b events hrest hyields
  rcases hyields.of_bind hp hk with ⟨hnone, -⟩ | ⟨a, first, second, _, _, rfl, rfl, hfirst, hsecond⟩
  · cases hnone
  · rw [List.append_assoc] at hfirst ⊢
    -- behind the first part stands what the second consumes, and then the rest
    exact (hpahead (hrest.append second) hfirst).bind (hkahead a hrest hsecond)

theorem LooksOneAhead.attempt {p : Scan α} (hp : p.Local) (hpahead : p.LooksOneAhead) :
    p.attempt.LooksOneAhead := by
  intro consumed rest rest' a events hrest hyields
  rcases hyields.of_attempt hp with ⟨_, -, hsome⟩ | ⟨hnone, -⟩
  · exact (hpahead hrest hsome).attempt_some
  · cases hnone

end Scan

namespace Parser

variable {α : Type}

theorem looksOneAhead_run (p : Parser α) : p.run.LooksOneAhead :=
  local_induction (motive := fun s ↦ s.LooksOneAhead)
    (Scan.looksOneAhead_read Reading.eq_append_of_integer Reading.integer_eq_found_of_standsInFor)
    (Scan.looksOneAhead_read Reading.eq_append_of_float Reading.float_eq_found_of_standsInFor)
    (Scan.looksOneAhead_read Reading.eq_append_of_anyChar fun h _ ↦
      Reading.anyChar_eq_found_append h _)
    (fun _ ↦ Scan.looksOneAhead_read Reading.eq_append_of_literal fun h _ ↦
      Reading.literal_eq_found_append h _)
    Scan.looksOneAhead_pure Scan.looksOneAhead_fail
    (fun _ _ hp hk hpahead hkahead ↦ hpahead.bind hp hk hkahead)
    (fun _ hp hpahead ↦ hpahead.attempt hp) p

/-- **One character of lookahead.** What a parser consumed, it consumes again with the same value
before any text that starts alike, that starts with no number character, or that is empty. In
particular it accepts what it consumed as a whole text. -/
theorem runOn_append_of_runOn_append {p : Parser α} {taken left : String} {a : α}
    (h : p.runOn (taken ++ left) = (some a, left)) :
    (∀ left' : String,
      (left' = "" ∨ (left ≠ "" ∧ left'.toList.head? = left.toList.head?) ∨
        ∃ x, left'.toList.head? = some x ∧ x.isDigit = false ∧ x ≠ '.') →
      p.runOn (taken ++ left') = (some a, left')) ∧
    p.parse taken = some a := by
  obtain ⟨consumed, events, hyields⟩ := exists_yields_of_runOn h
  have htext := hyields.text_eq
  rw [String.toList_append] at htext hyields
  obtain rfl := List.append_cancel_right htext
  constructor
  · intro left' hleft'
    have hstands : StandsInFor left'.toList left.toList := by
      refine standsInFor_of_head? ?_
      rcases hleft' with rfl | ⟨-, hsame⟩ | hother
      · exact Or.inl rfl
      · exact Or.inr (Or.inl hsame)
      · exact Or.inr (Or.inr hother)
    have hyields' := p.looksOneAhead_run hstands hyields
    rw [← String.toList_append] at hyields'
    rw [runOn_eq hyields', String.ofList_toList]
  · have hwhole := p.looksOneAhead_run (standsInFor_nil left.toList) hyields
    rw [List.append_nil] at hwhole
    rw [parse, parseReporting_eq hwhole]
    rfl

/-- A number between two characters of two bytes, before a text that starts differently. -/
theorem runOn_append_of_runOn_append_degrees :
    (zip anyChar float).runOn ("é1." ++ "é4") = (some ('é', ⟨0x3ff0000000000000⟩), "é4") ∧
      (zip anyChar float).runOn ("é1." ++ "° N") = (some ('é', ⟨0x3ff0000000000000⟩), "° N") ∧
      (zip anyChar float).parse "é1." = some ('é', ⟨0x3ff0000000000000⟩) := by
  have h : (zip anyChar float).runOn ("é1." ++ "é4") =
      (some ('é', ⟨0x3ff0000000000000⟩), "é4") := by decide +kernel
  obtain ⟨hbefore, hwhole⟩ := runOn_append_of_runOn_append h
  exact ⟨h, hbefore "° N" (Or.inr (Or.inr ⟨'°', by decide⟩)), hwhole⟩

end Parser

end PrefixParsing
