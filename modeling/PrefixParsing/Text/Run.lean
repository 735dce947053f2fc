import PrefixParsing.Text.Bytes

/-!
# Leading runs

The leading run of a text is its longest start all of whose characters are accepted by a given
test. Numbers are read this way: first the whole run of number characters is found, and only then
is it decided whether the run denotes a number, so that no shorter start is ever tried.

The run is found by the byte position at which it ends, `runEnd`, because a position is what a
cursor moves to; `leadingRun` is the part of the text before that position. That the position is
always a boundary, so that the cut never comes up empty by accident, is `cut_runEnd`.
-/

namespace PrefixParsing.Text

/-- Byte position of the first character that `accept` refuses, or of the end of the text. -/
def runEnd (accept : Char → Bool) : List Char → Nat
  | [] => 0
  | c :: cs => if accept c then c.utf8Size + runEnd accept cs else 0

/-- The longest start of `cs` all of whose characters are accepted. -/
def leadingRun (accept : Char → Bool) (cs : List Char) : List Char :=
  ((cut (runEnd accept cs) cs).map Prod.fst).getD []

theorem runEnd_eq_byteSize_takeWhile (accept : Char → Bool) (cs : List Char) :
    runEnd accept cs = byteSize (cs.takeWhile accept) := by
  induction cs with
  | nil => rfl
  | cons c cs ih =>
    rw [runEnd, List.takeWhile_cons]
    split <;> simp_all

/-- The position found is a boundary: the cut there succeeds. -/
theorem cut_runEnd (accept : Char → Bool) (cs : List Char) :
    cut (runEnd accept cs) cs = some (cs.takeWhile accept, cs.dropWhile accept) := by
  rw [cut_eq_some_iff]
  exact ⟨List.takeWhile_append_dropWhile.symm, (runEnd_eq_byteSize_takeWhile accept cs).symm⟩

theorem leadingRun_eq_takeWhile (accept : Char → Bool) (cs : List Char) :
    leadingRun accept cs = cs.takeWhile accept := by
  rw [leadingRun, cut_runEnd, Option.map_some, Option.getD_some]

end PrefixParsing.Text
