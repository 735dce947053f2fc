import PrefixParsing.Proofs.Readings

/-!
# The leading run is the longest accepted start

The run of number characters at the start of a text is cut off at the byte position of the first
character that is refused. Characters have one to four bytes and the test may be any, so it has to
be seen that the position is never inside a character: the cut would then come up empty, and an
empty run looks like a text without a number.

## Main statements

The cut at the position always gives the run, together with what is behind it
(`cut_runEnd_eq_leadingRun`). The starts of the run are the accepted starts of the text, no more and
no less (`prefix_leadingRun_iff`), which is what makes it the longest of them.
-/

namespace PrefixParsing.Text

variable {accept : Char → Bool} {start text : List Char}

theorem cut_runEnd_eq_leadingRun (accept : Char → Bool) (text : List Char) :
    ∃ rest, cut (runEnd accept text) text = some (leadingRun accept text, rest) ∧
      IsLeadingRun accept (leadingRun accept text) rest := by
  obtain ⟨rest, htext, hrun⟩ := exists_isLeadingRun accept text
  refine ⟨rest, cut_eq_some_iff.mpr ⟨htext, ?_⟩, hrun⟩
  rw [leadingRun_eq_takeWhile, runEnd_eq_byteSize_takeWhile]

theorem prefix_leadingRun_iff :
    start <+: leadingRun accept text ↔ start <+: text ∧ ∀ x ∈ start, accept x = true := by
  constructor
  · intro hstart
    obtain ⟨rest, htext, hrun⟩ := exists_isLeadingRun accept text
    have hprefix : leadingRun accept text <+: text := ⟨rest, htext.symm⟩
    exact ⟨hstart.trans hprefix, fun x hx ↦ hrun.accepted x (hstart.mem hx)⟩
  · rintro ⟨⟨rest, rfl⟩, haccepted⟩
    rw [leadingRun_eq_takeWhile, List.takeWhile_append_of_pos haccepted]
    exact List.prefix_append start _

/-- **The longest accepted start.** The run ends at a boundary within the text, so that the cut
there never fails and the run is its first part. All characters of the run are accepted, and it is
the whole text or the next character is refused. It is the only start of this kind, and its starts
are the accepted starts of the text. -/
theorem leadingRun_longest (accept : Char → Bool) (text : List Char) :
    IsBoundary text (runEnd accept text) ∧ runEnd accept text ≤ byteSize text ∧
    (∃ rest, cut (runEnd accept text) text = some (leadingRun accept text, rest) ∧
      text = leadingRun accept text ++ rest ∧
      IsLeadingRun accept (leadingRun accept text) rest) ∧
    (∀ run rest, text = run ++ rest → IsLeadingRun accept run rest →
      run = leadingRun accept text) ∧
    ∀ start, start <+: leadingRun accept text ↔ start <+: text ∧ ∀ x ∈ start, accept x = true := by
  obtain ⟨rest, hcut, hrun⟩ := cut_runEnd_eq_leadingRun accept text
  obtain ⟨htext, hsize⟩ := cut_eq_some_iff.mp hcut
  have hboundary : IsBoundary text (runEnd accept text) := ⟨_, rest, htext, hsize⟩
  refine ⟨hboundary, hboundary.le_byteSize, ⟨rest, hcut, htext, hrun⟩, ?_, fun start ↦
    prefix_leadingRun_iff⟩
  rintro run rest' rfl hrun'
  exact (leadingRun_append hrun').symm

/-- Up to the first character of four bytes, over characters of one, two and three. -/
example : runEnd (·.utf8Size < 4) ['a', 'é', '€', '🦀', 'b'] = 6 ∧
    leadingRun (·.utf8Size < 4) ['a', 'é', '€', '🦀', 'b'] = ['a', 'é', '€'] := by
  decide

end PrefixParsing.Text
