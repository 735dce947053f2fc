import Mathlib.Data.List.Forall2
import PrefixParsing.Proofs.Lookahead
import PrefixParsing.Proofs.Sequencing

/-!
# Parsing a sequence is parsing its pieces

A whole text that a sequence of parsers accepts can be cut into pieces such that each parser accepts
its piece as a whole text. Conversely, pieces that are accepted one by one make up a text that the
sequence accepts, provided that no number can run on into the pieces behind it: what follows a piece
has to be empty or to start with a character that is no part of a number.

## Any nesting

The same parsers can be put in sequence in many ways: by nested pairs, by the longer combinators, or
by a mixture. `ZipTree` is a sequence of this kind, `ZipTree.parser` the parser that it stands for,
and `ZipTree.components` lists the parsers at its leaves, each with the value that an output of the
whole holds for it.

## What is shown of the parts

Within a sequence a parser is followed by a text that it leaves. So the induction is over what holds
with a rest behind (`Parser.SplitsInto`), where the pieces of the second part, and then the rest,
are what is behind the first part. With nothing behind, this is the statement on whole texts.
-/

namespace PrefixParsing

/-! ## Sequences and their components -/

/-- A parser together with a value for it to produce. -/
structure Component extends AnyParser where
  value : Output

/-- The parser produces its value from `text` as a whole. -/
def Component.Accepts (k : Component) (text : String) : Prop := k.parser.parse text = some k.value

/-- Parsers in sequence, with all their outputs kept. -/
inductive ZipTree : Type → Type 1 where
  | leaf {α : Type} (p : Parser α) : ZipTree α
  | zip {α β : Type} (p : ZipTree α) (q : ZipTree β) : ZipTree (α × β)
  | zip3 {α β γ : Type} (p : ZipTree α) (q : ZipTree β) (r : ZipTree γ) : ZipTree (α × β × γ)
  | zip4 {α β γ δ : Type} (p : ZipTree α) (q : ZipTree β) (r : ZipTree γ) (s : ZipTree δ) :
      ZipTree (α × β × γ × δ)
  | zip5 {α β γ δ ε : Type} (p : ZipTree α) (q : ZipTree β) (r : ZipTree γ) (s : ZipTree δ)
      (t : ZipTree ε) : ZipTree (α × β × γ × δ × ε)
  | zip6 {α β γ δ ε ζ : Type} (p : ZipTree α) (q : ZipTree β) (r : ZipTree γ) (s : ZipTree δ)
      (t : ZipTree ε) (u : ZipTree ζ) : ZipTree (α × β × γ × δ × ε × ζ)
  | zip7 {α β γ δ ε ζ η : Type} (p : ZipTree α) (q : ZipTree β) (r : ZipTree γ) (s : ZipTree δ)
      (t : ZipTree ε) (u : ZipTree ζ) (v : ZipTree η) : ZipTree (α × β × γ × δ × ε × ζ × η)

namespace ZipTree

/-- The parser of the whole sequence. -/
def parser : {α : Type} → ZipTree α → Parser α
  | _, leaf p => p
  | _, zip p q => p.parser.zip q.parser
  | _, zip3 p q r => p.parser.zip3 q.parser r.parser
  | _, zip4 p q r s => p.parser.zip4 q.parser r.parser s.parser
  | _, zip5 p q r s t => p.parser.zip5 q.parser r.parser s.parser t.parser
  | _, zip6 p q r s t u => p.parser.zip6 q.parser r.parser s.parser t.parser u.parser
  | _, zip7 p q r s t u v =>
    p.parser.zip7 q.parser r.parser s.parser t.parser u.parser v.parser

/-- The parsers at the leaves, from left to right, with their values in an output of the whole. -/
def components : {α : Type} → ZipTree α → α → List Component
  | _, leaf p, a => [⟨⟨p⟩, a⟩]
  | _, zip p q, (a, b) => p.components a ++ q.components b
  | _, zip3 p q r, (a, b, c) => p.components a ++ (q.components b ++ r.components c)
  | _, zip4 p q r s, (a, b, c, d) =>
    p.components a ++ (q.components b ++ (r.components c ++ s.components d))
  | _, zip5 p q r s t, (a, b, c, d, e) =>
    p.components a ++ (q.components b ++ (r.components c ++ (s.components d ++ t.components e)))
  | _, zip6 p q r s t u, (a, b, c, d, e, f) =>
    p.components a ++ (q.components b ++ (r.components c ++ (s.components d ++
      (t.components e ++ u.components f))))
  | _, zip7 p q r s t u v, (a, b, c, d, e, f, g) =>
    p.components a ++ (q.components b ++ (r.components c ++ (s.components d ++
      (t.components e ++ (u.components f ++ v.components g)))))

/-- The parsers at the leaves, from left to right. -/
def leaves : {α : Type} → ZipTree α → List AnyParser
  | _, leaf p => [⟨p⟩]
  | _, zip p q => p.leaves ++ q.leaves
  | _, zip3 p q r => p.leaves ++ (q.leaves ++ r.leaves)
  | _, zip4 p q r s => p.leaves ++ (q.leaves ++ (r.leaves ++ s.leaves))
  | _, zip5 p q r s t => p.leaves ++ (q.leaves ++ (r.leaves ++ (s.leaves ++ t.leaves)))
  | _, zip6 p q r s t u =>
    p.leaves ++ (q.leaves ++ (r.leaves ++ (s.leaves ++ (t.leaves ++ u.leaves))))
  | _, zip7 p q r s t u v =>
    p.leaves ++ (q.leaves ++ (r.leaves ++ (s.leaves ++ (t.leaves ++ (u.leaves ++ v.leaves)))))

/-- What holds of the leaves, is kept by pairs, and depends on no more than the run, holds of every
sequence: the longer combinators are nested pairs. -/
theorem pair_induction
    {motive : ∀ {α : Type}, Parser α → List AnyParser → (α → List Component) → Prop}
    (hleaf : ∀ {α : Type} (p : Parser α), motive p [⟨p⟩] fun a ↦ [⟨⟨p⟩, a⟩])
    (hzip : ∀ {α β : Type} {p : Parser α} {q : Parser β} {ps qs : List AnyParser}
      {list : α → List Component} {list' : β → List Component}, motive p ps list →
      motive q qs list' → motive (p.zip q) (ps ++ qs) fun ab ↦ list ab.1 ++ list' ab.2)
    (hrun : ∀ {α : Type} {p q : Parser α} {ps : List AnyParser} {list : α → List Component},
      p.run = q.run → motive q ps list → motive p ps list)
    {α : Type} (t : ZipTree α) : motive t.parser t.leaves t.components := by
  induction t with
  | leaf p => exact hleaf p
  | zip p q ihp ihq => exact hzip ihp ihq
  | zip3 p q r ihp ihq ihr => exact hrun (Parser.run_zip3 _ _ _) (hzip ihp (hzip ihq ihr))
  | zip4 p q r s ihp ihq ihr ihs =>
    have h₃ := hrun (Parser.run_zip3 _ _ _) (hzip ihq (hzip ihr ihs))
    exact hrun (Parser.run_zip4 _ _ _ _) (hzip ihp h₃)
  | zip5 p q r s t ihp ihq ihr ihs iht =>
    have h₃ := hrun (Parser.run_zip3 _ _ _) (hzip ihr (hzip ihs iht))
    have h₄ := hrun (Parser.run_zip4 _ _ _ _) (hzip ihq h₃)
    exact hrun (Parser.run_zip5 _ _ _ _ _) (hzip ihp h₄)
  | zip6 p q r s t u ihp ihq ihr ihs iht ihu =>
    have h₃ := hrun (Parser.run_zip3 _ _ _) (hzip ihs (hzip iht ihu))
    have h₄ := hrun (Parser.run_zip4 _ _ _ _) (hzip ihr h₃)
    have h₅ := hrun (Parser.run_zip5 _ _ _ _ _) (hzip ihq h₄)
    exact hrun (Parser.run_zip6 _ _ _ _ _ _) (hzip ihp h₅)
  | zip7 p q r s t u v ihp ihq ihr ihs iht ihu ihv =>
    have h₃ := hrun (Parser.run_zip3 _ _ _) (hzip iht (hzip ihu ihv))
    have h₄ := hrun (Parser.run_zip4 _ _ _ _) (hzip ihs h₃)
    have h₅ := hrun (Parser.run_zip5 _ _ _ _ _) (hzip ihr h₄)
    have h₆ := hrun (Parser.run_zip6 _ _ _ _ _ _) (hzip ihq h₅)
    exact hrun (Parser.run_zip7 _ _ _ _ _ _ _) (hzip ihp h₆)

theorem map_components {α : Type} (t : ZipTree α) (a : α) :
    (t.components a).map Component.toAnyParser = t.leaves :=
  pair_induction (motive := fun _ ps list ↦ ∀ a, (list a).map Component.toAnyParser = ps)
    (fun _ _ ↦ rfl) (fun hp hq ab ↦ by rw [List.map_append, hp, hq]) (fun _ h ↦ h) t a

end ZipTree

/-! ## Pieces -/

/-- The characters behind each of the pieces, with `rest` behind them all, do not go on with a
number. -/
def Guarded : List String → List Char → Prop
  | [], _ => True
  | _ :: pieces, rest =>
    StandsInFor (pieces.flatMap String.toList ++ rest) [] ∧ Guarded pieces rest

theorem guarded_append {pieces pieces' : List String} {rest : List Char} :
    Guarded (pieces ++ pieces') rest ↔
      Guarded pieces (pieces'.flatMap String.toList ++ rest) ∧ Guarded pieces' rest := by
  induction pieces with
  | nil => exact (and_iff_right trivial).symm
  | cons piece pieces ih =>
    rw [List.cons_append, Guarded, Guarded, ih, List.flatMap_append, List.append_assoc, and_assoc]

/-- The condition on pieces, said for each of them by the first character behind it. -/
theorem guarded_of_forall_drop {pieces : List String}
    (h : ∀ i x, (String.join (pieces.drop (i + 1))).toList.head? = some x →
      x.isDigit = false ∧ x ≠ '.') : Guarded pieces [] := by
  induction pieces with
  | nil => trivial
  | cons piece pieces ih =>
    refine ⟨standsInFor_of_head? ?_, ih fun i ↦ h (i + 1)⟩
    rw [List.append_nil, ← String.toList_join]
    cases hhead : (String.join pieces).toList.head? with
    | none => exact Or.inl (List.head?_eq_none_iff.mp hhead)
    | some x => exact Or.inr (Or.inr ⟨x, rfl, h 0 x hhead⟩)

theorem exists_append_of_forall₂_append {κ π : Type*} {R : κ → π → Prop} {ks ls : List κ}
    {pieces : List π} (h : List.Forall₂ R (ks ++ ls) pieces) :
    ∃ first second, pieces = first ++ second ∧ List.Forall₂ R ks first ∧
      List.Forall₂ R ls second := by
  induction ks generalizing pieces with
  | nil => exact ⟨[], pieces, rfl, .nil, h⟩
  | cons k ks ih =>
    obtain ⟨piece, others, hk, hothers, rfl⟩ := List.forall₂_cons_left_iff.mp h
    obtain ⟨first, second, rfl, hfirst, hsecond⟩ := ih hothers
    exact ⟨piece :: first, second, rfl, .cons hk hfirst, hsecond⟩

/-! ## One parser behind the other -/

namespace Parser

variable {α β : Type}

theorem yields_zip {p : Parser α} {q : Parser β} {text first middle second rest : List Char}
    {a : α} {b : β} {events events' : List Event}
    (hp : p.run.Yields text (some a) first middle events)
    (hq : q.run.Yields middle (some b) second rest events') :
    (p.zip q).run.Yields text (some (a, b)) (first ++ second) rest (events ++ events') := by
  have hpair : (q.run >>= fun b ↦ (pure (a, b) : Scan (α × β))).Yields middle (some (a, b))
      (second ++ []) rest (events' ++ []) := hq.bind (Scan.yields_pure (a, b) rest)
  rw [List.append_nil, List.append_nil] at hpair
  exact hp.bind hpair

theorem exists_of_yields_zip {p : Parser α} {q : Parser β} {text consumed rest : List Char}
    {a : α} {b : β} {events : List Event}
    (h : (p.zip q).run.Yields text (some (a, b)) consumed rest events) :
    ∃ first second events₁ events₂, consumed = first ++ second ∧
      p.run.Yields text (some a) first (second ++ rest) events₁ ∧
      q.run.Yields (second ++ rest) (some b) second rest events₂ := by
  obtain ⟨output, first, middle, events₁, hp⟩ := p.local_run text
  cases output with
  | none => exact nomatch (h.unique (hp.bind_none _)).1
  | some a' =>
    obtain ⟨output', second, left, events₂, hq⟩ := q.local_run middle
    cases output' with
    | none => exact nomatch (h.unique (hp.bind (hq.bind_none _))).1
    | some b' =>
      obtain ⟨hpair, rfl, rfl, -⟩ := h.unique (yields_zip hp hq)
      obtain ⟨rfl, rfl⟩ := Prod.mk.inj (Option.some.inj hpair)
      obtain rfl := hq.text_eq
      exact ⟨first, second, events₁, events₂, rfl, hp, hq⟩

/-- `p` gives `a` for the texts that are made up of one piece for each of the components. -/
structure SplitsInto (p : Parser α) (a : α) (ks : List Component) : Prop where
  /-- What is consumed is made up of accepted pieces. -/
  split : ∀ {consumed rest : List Char} {events : List Event},
    p.run.Yields (consumed ++ rest) (some a) consumed rest events →
    ∃ pieces, consumed = pieces.flatMap String.toList ∧ List.Forall₂ Component.Accepts ks pieces
  /-- Accepted pieces are consumed, as long as no number runs on behind one of them. -/
  join : ∀ {pieces : List String} {rest : List Char}, List.Forall₂ Component.Accepts ks pieces →
    Guarded pieces rest → ∃ events, p.run.Yields (pieces.flatMap String.toList ++ rest) (some a)
      (pieces.flatMap String.toList) rest events

theorem SplitsInto.of_run_eq {p q : Parser α} {a : α} {ks : List Component}
    (h : q.SplitsInto a ks) (hrun : p.run = q.run) : p.SplitsInto a ks := by
  refine ⟨fun hyields ↦ ?_, fun hpieces hguarded ↦ ?_⟩
  · rw [hrun] at hyields
    exact h.split hyields
  · rw [hrun]
    exact h.join hpieces hguarded

/-- A single parser is a sequence of one component. What it consumed before a rest it accepts alone,
and what it accepts alone it consumes before a rest that does not go on with a number. -/
theorem splitsInto_single (p : Parser α) (a : α) : p.SplitsInto a [⟨⟨p⟩, a⟩] := by
  refine ⟨fun {consumed rest events} hyields ↦ ?_, fun {pieces rest} hpieces hguarded ↦ ?_⟩
  · have halone := p.looksOneAhead_run (standsInFor_nil rest) hyields
    rw [List.append_nil] at halone
    refine ⟨[String.ofList consumed], by simp, .cons (parse_eq_some_iff.mpr ⟨events, ?_⟩) .nil⟩
    rwa [String.toList_ofList]
  · obtain ⟨piece, others, haccepts, hnone, rfl⟩ := List.forall₂_cons_left_iff.mp hpieces
    obtain rfl := List.forall₂_nil_left_iff.mp hnone
    obtain ⟨events, hyields⟩ := parse_eq_some_iff.mp haccepts
    refine ⟨events, ?_⟩
    rw [List.flatMap_singleton]
    refine p.looksOneAhead_run hguarded.1 ?_
    rwa [List.append_nil]

theorem SplitsInto.zip {p : Parser α} {q : Parser β} {a : α} {b : β} {ks ls : List Component}
    (hp : p.SplitsInto a ks) (hq : q.SplitsInto b ls) :
    (p.zip q).SplitsInto (a, b) (ks ++ ls) := by
  refine ⟨fun {consumed rest events} hyields ↦ ?_, fun {pieces rest} hpieces hguarded ↦ ?_⟩
  · obtain ⟨first, second, _, _, rfl, hfirst, hsecond⟩ := exists_of_yields_zip hyields
    rw [List.append_assoc] at hfirst
    obtain ⟨pieces, rfl, hks⟩ := hp.split hfirst
    obtain ⟨pieces', rfl, hls⟩ := hq.split hsecond
    exact ⟨pieces ++ pieces', List.flatMap_append.symm, List.rel_append hks hls⟩
  · obtain ⟨pieces, pieces', rfl, hks, hls⟩ := exists_append_of_forall₂_append hpieces
    -- behind the pieces of the first part stand those of the second, and then the rest
    obtain ⟨hfirst, hsecond⟩ := guarded_append.mp hguarded
    obtain ⟨events, hyields⟩ := hp.join hks hfirst
    obtain ⟨events', hyields'⟩ := hq.join hls hsecond
    rw [List.flatMap_append, List.append_assoc]
    exact ⟨events ++ events', yields_zip hyields hyields'⟩

end Parser

/-! ## Whole texts -/

namespace ZipTree

variable {α : Type}

theorem splitsInto_components (t : ZipTree α) (a : α) :
    t.parser.SplitsInto a (t.components a) :=
  pair_induction (motive := fun p _ list ↦ ∀ a, p.SplitsInto a (list a))
    (fun p a ↦ p.splitsInto_single a) (fun hp hq ab ↦ (hp ab.1).zip (hq ab.2))
    (fun hrun h a ↦ (h a).of_run_eq hrun) t a

/-- **Parsing a sequence is parsing its pieces.** A text that is accepted with an output is made up
of pieces that the components accept one by one, with the values that the output holds for them.
Such pieces make up a text that is accepted with this output, if what follows each of them is empty
or starts with neither a digit nor a point. -/
theorem parse_splits_and_joins (t : ZipTree α) (a : α) :
    (∀ text, t.parser.parse text = some a →
      ∃ pieces, text = String.join pieces ∧
        List.Forall₂ Component.Accepts (t.components a) pieces) ∧
    ∀ pieces, List.Forall₂ Component.Accepts (t.components a) pieces →
      (∀ i x, (String.join (pieces.drop (i + 1))).toList.head? = some x →
        x.isDigit = false ∧ x ≠ '.') →
      t.parser.parse (String.join pieces) = some a := by
  have hsplits := t.splitsInto_components a
  refine ⟨fun text h ↦ ?_, fun pieces hpieces hguarded ↦ ?_⟩
  · obtain ⟨events, hyields⟩ := Parser.parse_eq_some_iff.mp h
    have hwhole : t.parser.run.Yields (text.toList ++ []) (some a) text.toList [] events := by
      rwa [List.append_nil]
    obtain ⟨pieces, htext, hpieces⟩ := hsplits.split hwhole
    refine ⟨pieces, String.toList_injective ?_, hpieces⟩
    rw [String.toList_join, ← htext]
  · obtain ⟨events, hyields⟩ := hsplits.join hpieces (guarded_of_forall_drop hguarded)
    rw [List.append_nil] at hyields
    refine Parser.parse_eq_some_iff.mpr ⟨events, ?_⟩
    rwa [String.toList_join]

/-- The condition on what follows a piece cannot be left out: two numbers run into each other. -/
example : (Parser.integer.zip .integer).parse (String.join ["1", "2"]) = none := by decide +kernel

/-- A number, a text with a character of two bytes, a character and nothing, in nested sequences. -/
def degreesTree : ZipTree (Int × Unit × Char × Unit) :=
  .zip (.leaf .integer) (.zip3 (.leaf (.literal "° ")) (.leaf .anyChar) (.leaf (.literal "")))

/-- A text is cut into pieces, and the pieces are put together again. -/
theorem parse_splits_and_joins_degrees :
    degreesTree.parser.parse "12° N" = some (12, (), 'N', ()) ∧
      (∃ pieces, "12° N" = String.join pieces ∧
        List.Forall₂ Component.Accepts (degreesTree.components (12, (), 'N', ())) pieces) ∧
      List.Forall₂ Component.Accepts (degreesTree.components (12, (), 'N', ()))
        ["12", "° ", "N", ""] ∧
      degreesTree.parser.parse (String.join ["12", "° ", "N", ""]) = some (12, (), 'N', ()) := by
  obtain ⟨hsplit, hjoin⟩ := degreesTree.parse_splits_and_joins (12, (), 'N', ())
  have hparse : degreesTree.parser.parse "12° N" = some (12, (), 'N', ()) := by decide +kernel
  have hpieces : List.Forall₂ Component.Accepts (degreesTree.components (12, (), 'N', ()))
      ["12", "° ", "N", ""] := by
    refine .cons ?_ (.cons ?_ (.cons ?_ (.cons ?_ .nil)))
    · show Parser.integer.parse "12" = some 12
      decide +kernel
    · show (Parser.literal "° ").parse "° " = some ()
      decide +kernel
    · show Parser.anyChar.parse "N" = some 'N'
      decide +kernel
    · show (Parser.literal "").parse "" = some ()
      decide +kernel
  refine ⟨hparse, hsplit _ hparse, hpieces, hjoin _ hpieces ?_⟩
  -- behind the number stands a sign, behind the sign a letter, and behind the letter nothing
  rintro (_ | _ | _ | i) x hx
  · obtain rfl : '°' = x := Option.some.inj hx
    decide
  · obtain rfl : 'N' = x := Option.some.inj hx
    decide
  · cases hx
  · rw [List.drop_of_length_le (Nat.le_add_left 4 i)] at hx
    cases hx

end ZipTree

end PrefixParsing
