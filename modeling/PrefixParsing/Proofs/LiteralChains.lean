import Mathlib.Data.List.Induction
import PrefixParsing.Proofs.Locality
import PrefixParsing.Proofs.Readings

/-!
# Fixed texts in pieces

A fixed text can be matched as a whole, or its pieces one behind the other. The same texts are
accepted. What differs is where a failure leaves the cursor: a whole that is not there is not
consumed at all, and a chain of pieces stops behind those that were there. An attempt on the chain
takes this back, and then no difference is left.

## Where a chain stops

`StopsAt texts ahead j` says that the pieces in front of position `j` are ahead, and that they are
not ahead any more together with the piece at `j`. What is ahead of a cursor with one piece more is
ahead with one piece less, so there is no more than one such position (`StopsAt.unique`). An empty
piece is always ahead, and no chain stops at it.
-/

namespace PrefixParsing

open Text

/-! ## The position -/

/-- The pieces in front of position `j` are ahead, and no longer so with the one at `j`. -/
structure StopsAt (texts : List String) (ahead : List Char) (j : ℕ) : Prop where
  lt_length : j < texts.length
  isPrefix : (String.join (texts.take j)).toList <+: ahead
  not_isPrefix : ¬ (String.join (texts.take (j + 1))).toList <+: ahead

theorem join_append_singleton (texts : List String) (text : String) :
    String.join (texts ++ [text]) = String.join texts ++ text := List.foldl_append

namespace StopsAt

variable {texts : List String} {ahead : List Char} {i j : ℕ}

theorem join_take_isPrefix (h : i ≤ j) :
    (String.join (texts.take i)).toList <+: (String.join (texts.take j)).toList := by
  obtain ⟨others, hothers⟩ := List.take_prefix_take_left (l := texts) h
  rw [← hothers, String.join_append, String.toList_append]
  exact List.prefix_append _ _

protected theorem le (hi : StopsAt texts ahead i) (hj : StopsAt texts ahead j) : i ≤ j := by
  by_contra hlt
  exact hj.not_isPrefix ((join_take_isPrefix (Nat.not_le.mp hlt)).trans hi.isPrefix)

theorem unique (hi : StopsAt texts ahead i) (hj : StopsAt texts ahead j) : i = j :=
  Nat.le_antisymm (hi.le hj) (hj.le hi)

theorem append (h : StopsAt texts ahead j) (others : List String) :
    StopsAt (texts ++ others) ahead j := by
  have hlt := h.lt_length
  refine ⟨?_, ?_, ?_⟩
  · rw [List.length_append]
    omega
  · rw [List.take_append_of_le_length (by omega)]
    exact h.isPrefix
  · rw [List.take_append_of_le_length (by omega)]
    exact h.not_isPrefix

/-- The piece at the end is the first one that is not ahead. -/
theorem append_singleton {text : String} {rest : List Char} (h : ¬ text.toList <+: rest) :
    StopsAt (texts ++ [text]) ((String.join texts).toList ++ rest) texts.length := by
  have hlength : (texts ++ [text]).length = texts.length + 1 := List.length_append
  refine ⟨?_, ?_, ?_⟩
  · rw [hlength]
    exact Nat.lt_succ_self _
  · rw [List.take_left]
    exact List.prefix_append _ _
  · rw [← hlength, List.take_length, join_append_singleton, String.toList_append,
      List.prefix_append_right_inj]
    exact h

end StopsAt

namespace Parser

/-! ## One fixed text -/

theorem yields_literal (text : String) (rest : List Char) :
    (literal text).run.Yields (text.toList ++ rest) (some ()) text.toList rest [] :=
  Scan.yields_read_of_found (Reading.literal_eq_found_iff.mpr rfl)

theorem yields_literal_none {text : String} {ahead : List Char} (h : ¬ text.toList <+: ahead) :
    (literal text).run.Yields ahead none [] ahead [] :=
  Scan.yields_read_of_missing (Reading.literal_eq_missing h)

/-! ## The chain -/

/-- The second parser decides whether there is an output. -/
theorem yields_skipBoth {α β : Type} {p : Parser α} {q : Parser β}
    {ahead first middle second rest : List Char} {a : α} {output : Option β}
    {events events' : List Event} (hp : p.run.Yields ahead (some a) first middle events)
    (hq : q.run.Yields middle output second rest events') :
    (p.skipBoth q).run.Yields ahead (output.map fun _ ↦ ()) (first ++ second) rest
      (events ++ events') := by
  refine hp.bind (k := fun _ ↦ q.run >>= fun _ ↦ pure ()) ?_
  cases output with
  | none => exact hq.bind_none _
  | some b =>
    have hunit := hq.bind (k := fun _ ↦ pure ()) (Scan.yields_pure () rest)
    rwa [List.append_nil, List.append_nil] at hunit

/-- The texts one behind the other, with nothing kept. -/
def literals (texts : List String) : Parser Unit :=
  texts.foldl (fun chain text ↦ chain.skipBoth (literal text)) (always ())

theorem literals_append_singleton (texts : List String) (text : String) :
    literals (texts ++ [text]) = (literals texts).skipBoth (literal text) :=
  List.foldl_append

/-- A chain goes past all its texts, or it stops in front of one of them. The induction takes off
the last text, which is matched behind the others. -/
theorem yields_literals (texts : List String) (ahead : List Char) :
    (∃ rest, ahead = (String.join texts).toList ++ rest ∧
      (literals texts).run.Yields ahead (some ()) (String.join texts).toList rest []) ∨
    ∃ j rest, StopsAt texts ahead j ∧
      (literals texts).run.Yields ahead none (String.join (texts.take j)).toList rest [] := by
  induction texts using List.reverseRecOn with
  | nil => exact .inl ⟨ahead, rfl, Scan.yields_pure () ahead⟩
  | append_singleton texts text ih =>
    rw [literals_append_singleton]
    obtain ⟨rest, rfl, hchain⟩ | ⟨j, rest, hstop, hchain⟩ := ih
    · by_cases htext : text.toList <+: rest
      · obtain ⟨rest, rfl⟩ := htext
        rw [join_append_singleton, String.toList_append]
        exact .inl ⟨rest, (List.append_assoc _ _ _).symm,
          yields_skipBoth hchain (yields_literal text rest)⟩
      · have hboth := yields_skipBoth hchain (yields_literal_none htext)
        rw [List.append_nil] at hboth
        refine .inr ⟨texts.length, rest, .append_singleton htext, ?_⟩
        rw [List.take_left]
        exact hboth
    · refine .inr ⟨j, rest, hstop.append [text], ?_⟩
      rw [List.take_append_of_le_length (Nat.le_of_lt hstop.lt_length)]
      exact hchain.bind_none _

/-- **A text in pieces.** Under an attempt, a chain of fixed texts is their concatenation as a fixed
text. Without the attempt the chain has the same output. Where it fails, it stands behind the texts
up to the last position where they are ahead and are not so with one more. -/
theorem literals_eq_literal_join (texts : List String) {c : Cursor} (hc : c.InBounds) :
    (attempt (literals texts)).run c = (literal (String.join texts)).run c ∧
      ((literals texts).run c).output = ((literal (String.join texts)).run c).output ∧
      (((literals texts).run c).output = none → ∃ j, StopsAt texts c.remaining.toList j ∧
        (∀ i, StopsAt texts c.remaining.toList i → i ≤ j) ∧
        (literals texts).run c =
          ⟨none, ⟨c.source, c.offset + (String.join (texts.take j)).utf8ByteSize⟩, []⟩) := by
  rw [Cursor.remaining, String.toList_ofList]
  obtain ⟨rest, hahead, hchain⟩ | ⟨j, rest, hstop, hchain⟩ := yields_literals texts c.rest
  · have hwhole := yields_literal (String.join texts) rest
    rw [← hahead] at hwhole
    have happly := hchain.apply_eq c hc rfl
    refine ⟨?_, ?_, ?_⟩
    · exact (hchain.attempt_some.apply_eq c hc rfl).trans (hwhole.apply_eq c hc rfl).symm
    · rw [happly, hwhole.apply_eq c hc rfl]
    · intro hnone
      rw [happly] at hnone
      cases hnone
  · have hnot : ¬ (String.join texts).toList <+: c.rest := fun hwhole ↦
      hstop.not_isPrefix ((StopsAt.join_take_isPrefix hstop.lt_length).trans
        (by rwa [List.take_length]))
    have hwhole := yields_literal_none hnot
    have happly := hchain.apply_eq c hc rfl
    refine ⟨?_, ?_, ?_⟩
    · exact (hchain.attempt_none.apply_eq c hc rfl).trans (hwhole.apply_eq c hc rfl).symm
    · rw [happly, hwhole.apply_eq c hc rfl]
    · intro _
      refine ⟨j, hstop, fun i hi ↦ hi.le hstop, ?_⟩
      rw [happly, Cursor.past, ← utf8ByteSize_eq]

/-- Behind the first of the pieces, and behind an empty one. -/
theorem literals_eq_literal_join_partial :
    (⟨"aé°y", 1⟩ : Cursor).InBounds ∧ StopsAt ["é", "", "°x"] "é°y".toList 2 ∧
      (attempt (literals ["é", "", "°x"])).run ⟨"aé°y", 1⟩ = ⟨none, ⟨"aé°y", 1⟩, []⟩ ∧
      (literals ["é", "", "°x"]).run ⟨"aé°y", 1⟩ = ⟨none, ⟨"aé°y", 3⟩, []⟩ := by
  have hc : (⟨"aé°y", 1⟩ : Cursor).InBounds := by
    show 1 ≤ "aé°y".utf8ByteSize
    decide +kernel
  have hahead : (⟨"aé°y", 1⟩ : Cursor).remaining = "é°y" := by decide +kernel
  have hstop : StopsAt ["é", "", "°x"] "é°y".toList 2 := by
    refine ⟨by decide, ?_, ?_⟩ <;> decide +kernel
  obtain ⟨hattempt, houtput, hstopped⟩ := literals_eq_literal_join ["é", "", "°x"] hc
  have hwhole : (literal (String.join ["é", "", "°x"])).run ⟨"aé°y", 1⟩ =
      ⟨none, ⟨"aé°y", 1⟩, []⟩ := rfl
  rw [hwhole] at hattempt houtput
  obtain ⟨j, hj, -, hrun⟩ := hstopped houtput
  rw [hahead] at hj
  obtain rfl := hj.unique hstop
  exact ⟨hc, hstop, hattempt, hrun⟩

end Parser

end PrefixParsing
