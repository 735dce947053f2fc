import PrefixParsing.Proofs.Locality
import PrefixParsing.Proofs.Sequencing

/-!
# Parsers that fail in place

A sequence that fails leaves the cursor behind what its earlier parts consumed. This file describes
parsers of which that is not true: where they fail, they have not moved. They can be recognised by
how they are built.

## Two classes

An *inert* parser consumes nothing and cannot fail, so wherever it stands in a sequence it makes no
difference to the cursor. A *clean* parser fails in place. The primitives are clean, and so is every
attempt; but two clean parsers in sequence are not clean, because the second may fail behind the
first. A sequence is clean if all its parts but one are inert: then it moves and fails as that one
part does.

## What carries the induction

An inert parser does not only succeed without moving, it also has the same output everywhere. So
its run is `pure a` for some `a` (`Parser.Inert.exists_run_eq_pure`), and by the monad laws it drops
out of every sequence.
-/

namespace PrefixParsing

namespace Scan

variable {α β : Type}

/-- A failure of `s` leaves the cursor where it was. -/
def FailsInPlace (s : Scan α) : Prop :=
  ∀ c : Cursor, c.InBounds → (s c).output = none → (s c).cursor = c

theorem failsInPlace_pure (a : α) : (pure a : Scan α).FailsInPlace := fun _ _ hnone ↦ nomatch hnone

theorem failsInPlace_fail : (fail : Scan α).FailsInPlace := fun _ _ _ ↦ rfl

theorem failsInPlace_read (look : List Char → Reading α) : (read look).FailsInPlace := by
  intro c _ hnone
  cases h : look c.rest with
  | found lexeme a =>
    rw [read_apply_of_found h] at hnone
    cases hnone
  | missing report => rw [read_apply_of_missing h]

theorem Local.failsInPlace_attempt {s : Scan α} (hs : s.Local) : s.attempt.FailsInPlace := by
  intro c hc hnone
  obtain ⟨output, consumed, rest, events, hyields⟩ := hs c.rest
  cases output with
  | none => rw [hyields.attempt_none.apply_eq c hc rfl, Cursor.past_nil]
  | some a =>
    rw [hyields.attempt_some.apply_eq c hc rfl] at hnone
    cases hnone

/-- What follows may look at the output, as long as it neither moves nor fails. -/
theorem FailsInPlace.bind {s : Scan α} {k : α → Scan β} (hs : s.FailsInPlace)
    (hk : ∀ a, ∃ b, k a = pure b) : (s >>= k).FailsInPlace := by
  intro c hc hnone
  rcases h : s c with ⟨_ | a, c', events⟩
  · have hplace := hs c hc (by rw [h])
    rw [h] at hplace
    rw [bind_apply_of_none h]
    exact hplace
  · obtain ⟨b, hb⟩ := hk a
    rw [bind_apply_of_some h, hb] at hnone
    cases hnone

theorem FailsInPlace.map {s : Scan α} (hs : s.FailsInPlace) (f : α → β) :
    (f <$> s).FailsInPlace := by
  rw [map_eq_pure_bind]
  exact hs.bind fun a ↦ ⟨f a, rfl⟩

end Scan

/-! ## Parts in sequence -/

namespace AnyParser

theorem exists_inOrder_eq_pure {ps : List AnyParser} (h : ∀ p ∈ ps, ∃ a, p.parser.run = pure a) :
    ∃ outputs, inOrder ps = pure outputs := by
  induction ps with
  | nil => exact ⟨(), rfl⟩
  | cons p ps ih =>
    obtain ⟨a, ha⟩ := h p List.mem_cons_self
    obtain ⟨others, hothers⟩ := ih fun q hq ↦ h q (List.mem_cons_of_mem p hq)
    exact ⟨(a, others), by rw [inOrder, ha, hothers, pure_bind, pure_bind]⟩

theorem failsInPlace_inOrder {before after : List AnyParser} {p : AnyParser}
    (hbefore : ∀ q ∈ before, ∃ a, q.parser.run = pure a) (hp : p.parser.run.FailsInPlace)
    (hafter : ∀ q ∈ after, ∃ a, q.parser.run = pure a) :
    (inOrder (before ++ p :: after)).FailsInPlace := by
  induction before with
  | nil =>
    obtain ⟨others, hothers⟩ := exists_inOrder_eq_pure hafter
    refine hp.bind fun a ↦ ⟨(a, others), ?_⟩
    rw [hothers, pure_bind]
  | cons q before ih =>
    obtain ⟨a, ha⟩ := hbefore q List.mem_cons_self
    have hrest := ih fun q' hq' ↦ hbefore q' (List.mem_cons_of_mem q hq')
    show Scan.FailsInPlace (q.parser.run >>= fun a ↦
      inOrder (before ++ p :: after) >>= fun others ↦ pure (a, others))
    rw [ha, pure_bind]
    exact hrest.bind fun others ↦ ⟨(a, others), rfl⟩

end AnyParser

/-! ## The classes -/

namespace Parser

open AnyParser

variable {α : Type}

/-- Parsers that succeed wherever they are run and consume nothing, by how they are built. The
derived parsers are covered with what they stand for: `lift2 f` is `always f`, and `zipWith` is a
`map` of a `zip`. -/
inductive Inert : {α : Type} → Parser α → Prop where
  | always {α : Type} (value : α) : Inert (always value)
  | map {α β : Type} (f : α → β) {p : Parser α} (h : Inert p) : Inert (p.map f)
  | sealed {α : Type} {p : Parser α} (h : Inert p) : Inert p.sealed
  | attempt {α : Type} {p : Parser α} (h : Inert p) : Inert p.attempt
  /-- All parts of a sequence are inert. -/
  | sequence {α : Type} {p : Parser α} {ps : List AnyParser} (hparts : HasParts p ps)
      (h : ∀ q ∈ ps, Inert q.parser) : Inert p

/-- Parsers that fail in place, by how they are built. -/
inductive Clean : {α : Type} → Parser α → Prop where
  | inert {α : Type} {p : Parser α} (h : Inert p) : Clean p
  | integer : Clean integer
  | float : Clean float
  | anyChar : Clean anyChar
  | literal (expected : String) : Clean (literal expected)
  | never {α : Type} : Clean (never : Parser α)
  /-- Whatever is attempted. -/
  | attempt {α : Type} (p : Parser α) : Clean p.attempt
  | map {α β : Type} (f : α → β) {p : Parser α} (h : Clean p) : Clean (p.map f)
  | sealed {α : Type} {p : Parser α} (h : Clean p) : Clean p.sealed
  /-- One part of a sequence is clean, and all others are inert. -/
  | sequence {α : Type} {p : Parser α} {before after : List AnyParser} {q : AnyParser}
      (hparts : HasParts p (before ++ q :: after)) (hbefore : ∀ r ∈ before, Inert r.parser)
      (h : Clean q.parser) (hafter : ∀ r ∈ after, Inert r.parser) : Clean p
  /-- All parsers that the output can choose are clean. -/
  | flatMapLast {α β : Type} {p : Parser α} {next : α → Parser β} (h : Inert p)
      (hnext : ∀ a, Clean (next a)) : Clean (p.flatMap next)
  /-- All parsers that the output can choose are inert. -/
  | flatMapFirst {α β : Type} {p : Parser α} {next : α → Parser β} (h : Clean p)
      (hnext : ∀ a, Inert (next a)) : Clean (p.flatMap next)

/-- An inert parser does nothing but give a fixed output. -/
theorem Inert.exists_run_eq_pure {p : Parser α} (h : Inert p) : ∃ a, p.run = pure a := by
  induction h with
  | always value => exact ⟨value, rfl⟩
  | map f h ih =>
    obtain ⟨a, ha⟩ := ih
    exact ⟨f a, by rw [run, ha, pure_bind]⟩
  | sealed h ih => exact ih
  | attempt h ih =>
    obtain ⟨a, ha⟩ := ih
    exact ⟨a, by rw [run, ha]; rfl⟩
  | sequence hparts h ih =>
    obtain ⟨f, hrun⟩ := hparts.exists_run_eq
    obtain ⟨outputs, houtputs⟩ := exists_inOrder_eq_pure ih
    exact ⟨f outputs, by rw [hrun, houtputs, map_pure]⟩

theorem Clean.failsInPlace_run {p : Parser α} (h : Clean p) : p.run.FailsInPlace := by
  induction h with
  | inert h =>
    obtain ⟨a, ha⟩ := h.exists_run_eq_pure
    rw [ha]
    exact Scan.failsInPlace_pure a
  | integer | float | anyChar | literal expected => exact Scan.failsInPlace_read _
  | never => exact Scan.failsInPlace_fail
  | attempt p => exact p.local_run.failsInPlace_attempt
  | map f h ih => exact ih.bind fun a ↦ ⟨f a, rfl⟩
  | sealed h ih => exact ih
  | sequence hparts hbefore h hafter ih =>
    obtain ⟨f, hrun⟩ := hparts.exists_run_eq
    rw [hrun]
    exact (failsInPlace_inOrder (fun r hr ↦ (hbefore r hr).exists_run_eq_pure) ih
      fun r hr ↦ (hafter r hr).exists_run_eq_pure).map f
  | @flatMapLast _ _ p next h hnext ih =>
    obtain ⟨a, ha⟩ := h.exists_run_eq_pure
    show Scan.FailsInPlace (p.run >>= fun a ↦ (next a).run)
    rw [ha, pure_bind]
    exact ih a
  | flatMapFirst h hnext ih => exact ih.bind fun a ↦ (hnext a).exists_run_eq_pure

/-- **Failure in place.** A clean parser that fails leaves the cursor where it was, and an inert
parser never fails and never moves the cursor. -/
theorem cursor_run_eq_of_clean_or_inert (p : Parser α) (c : Cursor) :
    (Clean p → c.InBounds → (p.run c).output = none → (p.run c).cursor = c) ∧
    (Inert p → (∃ a, (p.run c).output = some a) ∧ (p.run c).cursor = c) := by
  refine ⟨fun h ↦ h.failsInPlace_run c, fun h ↦ ?_⟩
  obtain ⟨a, ha⟩ := h.exists_run_eq_pure
  rw [ha]
  exact ⟨⟨a, rfl⟩, rfl⟩

/-- Two clean parts in sequence need not fail in place: the first has moved when the second one
fails. -/
example : ((integer.zip (literal "y")).run (Cursor.start "12x")).cursor ≠ Cursor.start "12x" := by
  decide +kernel

/-- An attempt between inert parts fails behind a number and goes back over it, in the middle of a
text; and two fixed values in sequence. -/
theorem cursor_run_eq_of_clean_or_inert_attempt :
    Clean ((always 'a').zip3 (integer.zip (literal "y")).attempt (lift2 Nat.add)) ∧
      (⟨"é12x", 2⟩ : Cursor).InBounds ∧
      (((always 'a').zip3 (integer.zip (literal "y")).attempt (lift2 Nat.add)).run
        ⟨"é12x", 2⟩).output.isNone ∧
      (((always 'a').zip3 (integer.zip (literal "y")).attempt (lift2 Nat.add)).run
        ⟨"é12x", 2⟩).cursor = ⟨"é12x", 2⟩ ∧
      Inert ((always 1).zip (always 2)) ∧
      (((always 1).zip (always 2)).run ⟨"é12x", 1⟩).cursor = ⟨"é12x", 1⟩ := by
  have hclean : Clean ((always 'a').zip3 (integer.zip (literal "y")).attempt (lift2 Nat.add)) := by
    refine @Clean.sequence _ _ [⟨always 'a'⟩] [⟨lift2 Nat.add⟩]
      ⟨(integer.zip (literal "y")).attempt⟩
      (.zip3 _ _ _) ?_ (.attempt _) ?_
    · exact List.forall_mem_singleton.mpr (.always 'a')
    · exact List.forall_mem_singleton.mpr (.always Nat.add)
  have hinert : Inert ((always 1).zip (always 2)) :=
    .sequence (.zip _ _) (List.forall_mem_cons.mpr
      ⟨.always 1, List.forall_mem_singleton.mpr (.always 2)⟩)
  have hbounds : (⟨"é12x", 2⟩ : Cursor).InBounds := by
    show 2 ≤ "é12x".utf8ByteSize
    decide +kernel
  have hnone : (((always 'a').zip3 (integer.zip (literal "y")).attempt (lift2 Nat.add)).run
      ⟨"é12x", 2⟩).output = none := Option.isNone_iff_eq_none.mp (by decide +kernel)
  exact ⟨hclean, hbounds, Option.isNone_iff_eq_none.mpr hnone,
    (cursor_run_eq_of_clean_or_inert _ _).1 hclean hbounds hnone, hinert,
    ((cursor_run_eq_of_clean_or_inert _ _).2 hinert).2⟩

end Parser

end PrefixParsing
