import PrefixParsing.Proofs.Concatenation
import PrefixParsing.Proofs.Integers

/-!
# Pieces in their place

A sequence of parsers cuts a text into pieces, one for each of its parsers. If a piece is looked at
as a text of its own, something is lost: alone, a number does not show whether it would run on into
the piece behind it. Here each piece keeps its place. `p.Takes a piece behind` says that `p` takes
`piece` and produces `a` when `behind` is behind the piece.

Said like this, no condition on the pieces is needed. A sequence takes a text exactly if its parsers
take pieces of it one behind the other (`ZipTree.takesAs_components`).

## From parsers to grammars

What a primitive takes is told by the piece and by what is behind it, without a run
(`takes_integer_iff`, `takes_float_iff`, `takes_literal_iff`, `takes_anyChar_iff`). Together with
the statement on sequences this turns a parser into the grammar of the texts that it accepts.
-/

namespace PrefixParsing

open Text

namespace Parser

variable {α β : Type} {piece behind : List Char}

/-- With `behind` behind it, `p` takes `piece` and produces `a`. -/
def Takes (p : Parser α) (a : α) (piece behind : List Char) : Prop :=
  ∃ events, p.run.Yields (piece ++ behind) (some a) piece behind events

/-- A whole text is accepted exactly if it is taken with nothing behind it. -/
theorem parse_eq_some_iff_takes {p : Parser α} {text : String} {a : α} :
    p.parse text = some a ↔ p.Takes a text.toList [] := by
  rw [parse_eq_some_iff, Takes, List.append_nil]

theorem takes_iff_of_run_eq {p q : Parser α} (h : p.run = q.run) {a : α} :
    p.Takes a piece behind ↔ q.Takes a piece behind := by
  rw [Takes, h, Takes]

/-! ## Combinators -/

theorem takes_always_iff {a b : α} : (always a).Takes b piece behind ↔ b = a ∧ piece = [] := by
  constructor
  · rintro ⟨events, h⟩
    obtain ⟨hvalue, hpiece, -, -⟩ := h.unique (Scan.yields_pure a _)
    exact ⟨Option.some.inj hvalue, hpiece⟩
  · rintro ⟨rfl, rfl⟩
    exact ⟨[], Scan.yields_pure b behind⟩

theorem not_takes_never {a : α} : ¬ (never : Parser α).Takes a piece behind := by
  rintro ⟨events, h⟩
  obtain ⟨hvalue, -⟩ := h.unique (Scan.yields_fail _)
  exact absurd hvalue (Option.some_ne_none a)

/-- The second parser takes its part behind that of the first one. -/
theorem takes_flatMap_iff {p : Parser α} {next : α → Parser β} {b : β} :
    (flatMap p next).Takes b piece behind ↔
      ∃ a first second, piece = first ++ second ∧ p.Takes a first (second ++ behind) ∧
        (next a).Takes b second behind := by
  constructor
  · rintro ⟨events, h⟩
    rcases h.of_bind p.local_run fun a ↦ (next a).local_run with ⟨hnone, -⟩ | hboth
    · exact absurd hnone (Option.some_ne_none b)
    · obtain ⟨a, first, second, events₁, events₂, rfl, -, hp, hnext⟩ := hboth
      rw [List.append_assoc] at hp
      exact ⟨a, first, second, rfl, ⟨events₁, hp⟩, ⟨events₂, hnext⟩⟩
  · rintro ⟨a, first, second, rfl, ⟨events₁, hp⟩, ⟨events₂, hnext⟩⟩
    rw [Takes, List.append_assoc]
    exact ⟨events₁ ++ events₂, hp.bind hnext⟩

theorem takes_map_iff {f : α → β} {p : Parser α} {b : β} :
    (map f p).Takes b piece behind ↔ ∃ a, b = f a ∧ p.Takes a piece behind := by
  have hrun : (map f p).run = (flatMap p fun a ↦ always (f a)).run := rfl
  rw [takes_iff_of_run_eq hrun, takes_flatMap_iff]
  constructor
  · rintro ⟨a, first, second, rfl, hp, hvalue⟩
    obtain ⟨rfl, rfl⟩ := takes_always_iff.mp hvalue
    rw [List.append_nil]
    exact ⟨a, rfl, hp⟩
  · rintro ⟨a, rfl, hp⟩
    exact ⟨a, piece, [], (List.append_nil piece).symm, hp, takes_always_iff.mpr ⟨rfl, rfl⟩⟩

theorem takes_zip_iff {p : Parser α} {q : Parser β} {a : α} {b : β} :
    (p.zip q).Takes (a, b) piece behind ↔
      ∃ first second, piece = first ++ second ∧ p.Takes a first (second ++ behind) ∧
        q.Takes b second behind := by
  constructor
  · rintro ⟨events, h⟩
    obtain ⟨first, second, events₁, events₂, rfl, hp, hq⟩ := exists_of_yields_zip h
    rw [List.append_assoc] at hp
    exact ⟨first, second, rfl, ⟨events₁, hp⟩, ⟨events₂, hq⟩⟩
  · rintro ⟨first, second, rfl, ⟨events₁, hp⟩, ⟨events₂, hq⟩⟩
    rw [Takes, List.append_assoc]
    exact ⟨events₁ ++ events₂, yields_zip hp hq⟩

/-! ## Primitives -/

/-- A reading takes what it finds. -/
theorem exists_yields_read_iff {look : List Char → Reading α} (hlook : Scan.ReadsStart look)
    {a : α} :
    (∃ events, (Scan.read look).Yields (piece ++ behind) (some a) piece behind events) ↔
      look (piece ++ behind) = .found piece a := by
  constructor
  · rintro ⟨events, h⟩
    rcases h.of_read hlook with ⟨b, hvalue, hfound, -⟩ | ⟨report, hnone, -⟩
    · rwa [Option.some.inj hvalue]
    · exact absurd hnone (Option.some_ne_none a)
  · intro h
    exact ⟨[], Scan.yields_read_of_found h⟩

theorem takes_integer_iff {n : Int} :
    integer.Takes n piece behind ↔
      IsLeadingRun Char.isDigit piece behind ∧ piece ≠ [] ∧ placeValue piece ≤ 2 ^ 63 - 1 ∧
        n = placeValue piece := by
  refine (exists_yields_read_iff Reading.eq_append_of_integer).trans ?_
  constructor
  · intro h
    have hrun := Reading.isLeadingRun_of_integer h
    rw [Reading.integer_of_isLeadingRun hrun] at h
    by_cases hempty : piece = []
    · rw [if_pos hempty] at h
      cases h
    · rw [if_neg hempty] at h
      by_cases hvalue : placeValue piece ≤ 2 ^ 63 - 1
      · rw [if_pos hvalue] at h
        exact ⟨hrun, hempty, hvalue, (Reading.found.inj h).2.symm⟩
      · rw [if_neg hvalue] at h
        cases h
  · rintro ⟨hrun, hne, hvalue, rfl⟩
    rw [Reading.integer_of_isLeadingRun hrun, if_neg hne, if_pos hvalue]

theorem takes_float_iff_reading {x : Binary64} :
    float.Takes x piece behind ↔ Reading.float (piece ++ behind) = .found piece x :=
  exists_yields_read_iff Reading.eq_append_of_float

/-- What a fraction is read as does not depend on what is behind its run. -/
theorem takes_float_iff {x : Binary64} :
    float.Takes x piece behind ↔
      IsLeadingRun Reading.isFractionChar piece behind ∧
        float.parse (String.ofList piece) = some x := by
  rw [parse_eq_some_iff_takes, String.toList_ofList, takes_float_iff_reading,
    takes_float_iff_reading, List.append_nil]
  constructor
  · intro h
    have hrun := Reading.isLeadingRun_of_float h
    exact ⟨hrun, (Reading.float_append hrun).symm.trans h⟩
  · rintro ⟨hrun, h⟩
    rw [Reading.float_append hrun, h]

theorem takes_literal_iff {expected : String} {u : Unit} :
    (literal expected).Takes u piece behind ↔ piece = expected.toList :=
  (exists_yields_read_iff Reading.eq_append_of_literal).trans Reading.literal_eq_found_iff

theorem takes_anyChar_iff {c : Char} : anyChar.Takes c piece behind ↔ piece = [c] :=
  (exists_yields_read_iff Reading.eq_append_of_anyChar).trans Reading.anyChar_eq_found_iff

end Parser

/-! ## One behind the other -/

/-- The parsers of `ks` take `pieces`, one behind the other, and produce their values, with `rest`
behind them all. -/
inductive TakeInTurn : List Component → List (List Char) → List Char → Prop where
  | nil (rest : List Char) : TakeInTurn [] [] rest
  | cons {k : Component} {ks : List Component} {piece : List Char} {pieces : List (List Char)}
      {rest : List Char} (h : k.parser.Takes k.value piece (pieces.flatten ++ rest))
      (hs : TakeInTurn ks pieces rest) : TakeInTurn (k :: ks) (piece :: pieces) rest

section

variable {k : Component} {ks ls : List Component} {pieces : List (List Char)} {rest : List Char}

theorem takeInTurn_nil_iff : TakeInTurn [] pieces rest ↔ pieces = [] := by
  constructor
  · rintro ⟨⟩
    rfl
  · rintro rfl
    exact .nil rest

theorem takeInTurn_cons_iff :
    TakeInTurn (k :: ks) pieces rest ↔ ∃ piece others, pieces = piece :: others ∧
      k.parser.Takes k.value piece (others.flatten ++ rest) ∧ TakeInTurn ks others rest := by
  constructor
  · rintro (_ | ⟨h, hs⟩)
    exact ⟨_, _, rfl, h, hs⟩
  · rintro ⟨piece, others, rfl, h, hs⟩
    exact .cons h hs

/-- What is behind the first parsers are the pieces of the others, and then the rest. -/
theorem takeInTurn_append_iff :
    TakeInTurn (ks ++ ls) pieces rest ↔ ∃ first second, pieces = first ++ second ∧
      TakeInTurn ks first (second.flatten ++ rest) ∧ TakeInTurn ls second rest := by
  induction ks generalizing pieces with
  | nil =>
    constructor
    · intro h
      exact ⟨[], pieces, rfl, .nil _, h⟩
    · rintro ⟨first, second, rfl, hfirst, hsecond⟩
      obtain rfl := takeInTurn_nil_iff.mp hfirst
      exact hsecond
  | cons k ks ih =>
    rw [List.cons_append, takeInTurn_cons_iff]
    constructor
    · rintro ⟨piece, others, rfl, hpiece, hothers⟩
      obtain ⟨first, second, rfl, hfirst, hsecond⟩ := ih.mp hothers
      rw [List.flatten_append, List.append_assoc] at hpiece
      exact ⟨piece :: first, second, rfl, .cons hpiece hfirst, hsecond⟩
    · rintro ⟨first, second, rfl, hfirst, hsecond⟩
      obtain ⟨piece, others, rfl, hpiece, hothers⟩ := takeInTurn_cons_iff.mp hfirst
      refine ⟨piece, others ++ second, rfl, ?_, ih.mpr ⟨others, second, rfl, hothers, hsecond⟩⟩
      rwa [List.flatten_append, List.append_assoc]

end

namespace Parser

variable {α β : Type}

/-- What `p` takes to produce `a` is what the parsers of `ks` take in turn. -/
def TakesAs (p : Parser α) (a : α) (ks : List Component) : Prop :=
  ∀ taken rest, p.Takes a taken rest ↔ ∃ pieces, taken = pieces.flatten ∧ TakeInTurn ks pieces rest

theorem takesAs_single (p : Parser α) (a : α) : p.TakesAs a [⟨⟨p⟩, a⟩] := by
  intro taken rest
  constructor
  · intro h
    exact ⟨[taken], List.flatten_singleton.symm, .cons h (.nil rest)⟩
  · rintro ⟨pieces, rfl, h⟩
    obtain ⟨piece, others, rfl, hpiece, hothers⟩ := takeInTurn_cons_iff.mp h
    obtain rfl := takeInTurn_nil_iff.mp hothers
    rw [List.flatten_singleton]
    exact hpiece

theorem TakesAs.of_run_eq {p q : Parser α} {a : α} {ks : List Component} (h : q.TakesAs a ks)
    (hrun : p.run = q.run) : p.TakesAs a ks :=
  fun taken rest ↦ (takes_iff_of_run_eq hrun).trans (h taken rest)

theorem TakesAs.zip {p : Parser α} {q : Parser β} {a : α} {b : β} {ks ls : List Component}
    (hp : p.TakesAs a ks) (hq : q.TakesAs b ls) : (p.zip q).TakesAs (a, b) (ks ++ ls) := by
  intro taken rest
  rw [takes_zip_iff]
  constructor
  · rintro ⟨first, second, rfl, hfirst, hsecond⟩
    obtain ⟨pieces', rfl, hpieces'⟩ := (hq second rest).mp hsecond
    obtain ⟨pieces, rfl, hpieces⟩ := (hp first _).mp hfirst
    exact ⟨pieces ++ pieces', List.flatten_append.symm,
      takeInTurn_append_iff.mpr ⟨pieces, pieces', rfl, hpieces, hpieces'⟩⟩
  · rintro ⟨_, rfl, h⟩
    obtain ⟨pieces, pieces', rfl, hpieces, hpieces'⟩ := takeInTurn_append_iff.mp h
    exact ⟨pieces.flatten, pieces'.flatten, List.flatten_append,
      (hp _ _).mpr ⟨pieces, rfl, hpieces⟩, (hq _ _).mpr ⟨pieces', rfl, hpieces'⟩⟩

/-- A function of the output does not matter if the output can be told from its value. -/
theorem TakesAs.map {p : Parser α} {a : α} {ks : List Component} (h : p.TakesAs a ks) {f : α → β}
    (hf : ∀ a', f a' = f a → a' = a) : (Parser.map f p).TakesAs (f a) ks := by
  intro taken rest
  rw [takes_map_iff, ← h taken rest]
  constructor
  · rintro ⟨a', heq, htakes⟩
    rwa [← hf a' heq.symm]
  · intro htakes
    exact ⟨a, rfl, htakes⟩

theorem TakesAs.parse_eq_some_iff {p : Parser α} {a : α} {ks : List Component}
    (h : p.TakesAs a ks) {text : String} :
    p.parse text = some a ↔
      ∃ pieces, text.toList = pieces.flatten ∧ TakeInTurn ks pieces [] := by
  rw [parse_eq_some_iff_takes, h]

end Parser

/-- **Sequences take pieces in turn.** A sequence takes a text and produces a value exactly if its
parsers take pieces of the text one behind the other, each with its component of the value. -/
theorem ZipTree.takesAs_components {α : Type} (t : ZipTree α) (a : α) :
    t.parser.TakesAs a (t.components a) :=
  pair_induction (motive := fun p _ list ↦ ∀ a, p.TakesAs a (list a)) Parser.takesAs_single
    (fun hp hq ab ↦ (hp ab.1).zip (hq ab.2)) (fun hrun h a ↦ (h a).of_run_eq hrun) t a

end PrefixParsing
