import PrefixParsing.Parser

/-!
# Combinators in terms of two

All combinators but `attempt` can be written with `flatMap` and `always`: a sequence goes on from
each output to the next parser, and ends by saying what to make of the outputs. `Expands` lists what
each combinator stands for, the operators and the derived parsers included, together with the laws
of `flatMap` and `always` themselves. `Parser.desugar` writes a whole parser in this way, with the
parsers that its outputs choose.

## What is kept

Both sides of an expansion are equal as scans. That is more than having the same results: they leave
the cursor at the same place also when they fail half way, and report the same events.
-/

namespace PrefixParsing.Parser

/-- What a combinator stands for, and the laws of `flatMap` and `always`. -/
inductive Expands : {α : Type} → Parser α → Parser α → Prop where
  | map {α β : Type} (f : α → β) (p : Parser α) :
      Expands (p.map f) (p.flatMap fun a ↦ always (f a))
  | zip {α β : Type} (p : Parser α) (q : Parser β) :
      Expands (p.zip q) (p.flatMap fun a ↦ q.flatMap fun b ↦ always (a, b))
  | zip3 {α β γ : Type} (p : Parser α) (q : Parser β) (r : Parser γ) :
      Expands (p.zip3 q r)
        (p.flatMap fun a ↦ q.flatMap fun b ↦ r.flatMap fun c ↦ always (a, b, c))
  | zip4 {α β γ δ : Type} (p : Parser α) (q : Parser β) (r : Parser γ) (s : Parser δ) :
      Expands (p.zip4 q r s)
        (p.flatMap fun a ↦ q.flatMap fun b ↦ r.flatMap fun c ↦ s.flatMap fun d ↦
          always (a, b, c, d))
  | zip5 {α β γ δ ε : Type} (p : Parser α) (q : Parser β) (r : Parser γ) (s : Parser δ)
      (t : Parser ε) :
      Expands (p.zip5 q r s t)
        (p.flatMap fun a ↦ q.flatMap fun b ↦ r.flatMap fun c ↦ s.flatMap fun d ↦
          t.flatMap fun e ↦ always (a, b, c, d, e))
  | zip6 {α β γ δ ε ζ : Type} (p : Parser α) (q : Parser β) (r : Parser γ) (s : Parser δ)
      (t : Parser ε) (u : Parser ζ) :
      Expands (p.zip6 q r s t u)
        (p.flatMap fun a ↦ q.flatMap fun b ↦ r.flatMap fun c ↦ s.flatMap fun d ↦
          t.flatMap fun e ↦ u.flatMap fun f ↦ always (a, b, c, d, e, f))
  | zip7 {α β γ δ ε ζ η : Type} (p : Parser α) (q : Parser β) (r : Parser γ) (s : Parser δ)
      (t : Parser ε) (u : Parser ζ) (v : Parser η) :
      Expands (p.zip7 q r s t u v)
        (p.flatMap fun a ↦ q.flatMap fun b ↦ r.flatMap fun c ↦ s.flatMap fun d ↦
          t.flatMap fun e ↦ u.flatMap fun f ↦ v.flatMap fun g ↦ always (a, b, c, d, e, f, g))
  | zipWith {α β γ : Type} (f : α → β → γ) (p : Parser α) (q : Parser β) :
      Expands (zipWith f p q) (p.flatMap fun a ↦ q.flatMap fun b ↦ always (f a b))
  | keepLeft {α β : Type} (p : Parser α) (q : Parser β) :
      Expands (p.keepLeft q) (p.flatMap fun a ↦ q.flatMap fun _ ↦ always a)
  | keepRight {α β : Type} (p : Parser α) (q : Parser β) :
      Expands (p.keepRight q) (p.flatMap fun _ ↦ q.flatMap fun b ↦ always b)
  | skipBoth {α β : Type} (p : Parser α) (q : Parser β) :
      Expands (p.skipBoth q) (p.flatMap fun _ ↦ q.flatMap fun _ ↦ always ())
  | apply {α β : Type} (p : Parser (α → β)) (q : Parser α) :
      Expands (p.apply q) (p.flatMap fun f ↦ q.flatMap fun a ↦ always (f a))
  | lift2 {α β γ : Type} (f : α → β → γ) : Expands (lift2 f) (always fun a b ↦ f a b)
  /-- A parser with its structure hidden stands for itself. -/
  | sealed {α : Type} (p : Parser α) : Expands p.sealed p
  | seq {α β : Type} (p : Parser (α → β)) (q : Parser α) :
      Expands (p <*> q) (p.flatMap fun f ↦ q.flatMap fun a ↦ always (f a))
  | seqLeft {α β : Type} (p : Parser α) (q : Parser β) :
      Expands (p <* q) (p.flatMap fun a ↦ q.flatMap fun _ ↦ always a)
  | seqRight {α β : Type} (p : Parser α) (q : Parser β) :
      Expands (p *> q) (p.flatMap fun _ ↦ q.flatMap fun b ↦ always b)
  | shiftLeft {α β : Type} (p : Parser α) (q : Parser β) :
      Expands (p <<< q) (p.flatMap fun a ↦ q.flatMap fun _ ↦ always a)
  | shiftRight {α β : Type} (p : Parser α) (q : Parser β) :
      Expands (p >>> q) (p.flatMap fun _ ↦ q.flatMap fun b ↦ always b)
  | always_flatMap {α β : Type} (a : α) (next : α → Parser β) :
      Expands ((always a).flatMap next) (next a)
  | flatMap_always {α : Type} (p : Parser α) : Expands (p.flatMap fun a ↦ always a) p
  | flatMap_flatMap {α β γ : Type} (p : Parser α) (k : α → Parser β) (l : β → Parser γ) :
      Expands ((p.flatMap k).flatMap l) (p.flatMap fun a ↦ (k a).flatMap l)

variable {α : Type}

theorem run_keepRight_eq {β : Type} (p : Parser α) (q : Parser β) :
    (p.keepRight q).run = (p.flatMap fun _ ↦ q.flatMap fun b ↦ always b).run := by
  simp only [run, bind_pure]

/-- Both sides of an expansion do the same at every cursor. Where the expansion only spells out the
sequence, that is how it is run; what is left are the three monad laws. -/
theorem Expands.run_eq {p q : Parser α} (h : Expands p q) : p.run = q.run := by
  cases h with
  | map | zip | zip3 | zip4 | zip5 | zip6 | zip7 | keepLeft | skipBoth | apply | lift2 | sealed
  | seq | seqLeft | shiftLeft => rfl
  | zipWith f p q => simp only [Parser.zipWith, run, bind_assoc, pure_bind]
  | keepRight p q | seqRight p q | shiftRight p q => exact run_keepRight_eq p q
  | always_flatMap a next => exact pure_bind a _
  | flatMap_always => exact bind_pure _
  | flatMap_flatMap p k l => exact bind_assoc p.run _ _

/-! ## Whole parsers -/

/-- The parser with its combinators written as `flatMap` and `always`. -/
def desugar : {α : Type} → Parser α → Parser α
  | _, integer => integer
  | _, float => float
  | _, anyChar => anyChar
  | _, literal expected => literal expected
  | _, always value => always value
  | _, never => never
  | _, map f p => p.desugar.flatMap fun a ↦ always (f a)
  | _, flatMap p next => p.desugar.flatMap fun a ↦ (next a).desugar
  | _, zip p q => p.desugar.flatMap fun a ↦ q.desugar.flatMap fun b ↦ always (a, b)
  | _, zip3 p q r =>
    p.desugar.flatMap fun a ↦ q.desugar.flatMap fun b ↦ r.desugar.flatMap fun c ↦ always (a, b, c)
  | _, zip4 p q r s =>
    p.desugar.flatMap fun a ↦ q.desugar.flatMap fun b ↦ r.desugar.flatMap fun c ↦
      s.desugar.flatMap fun d ↦ always (a, b, c, d)
  | _, zip5 p q r s t =>
    p.desugar.flatMap fun a ↦ q.desugar.flatMap fun b ↦ r.desugar.flatMap fun c ↦
      s.desugar.flatMap fun d ↦ t.desugar.flatMap fun e ↦ always (a, b, c, d, e)
  | _, zip6 p q r s t u =>
    p.desugar.flatMap fun a ↦ q.desugar.flatMap fun b ↦ r.desugar.flatMap fun c ↦
      s.desugar.flatMap fun d ↦ t.desugar.flatMap fun e ↦ u.desugar.flatMap fun f ↦
        always (a, b, c, d, e, f)
  | _, zip7 p q r s t u v =>
    p.desugar.flatMap fun a ↦ q.desugar.flatMap fun b ↦ r.desugar.flatMap fun c ↦
      s.desugar.flatMap fun d ↦ t.desugar.flatMap fun e ↦ u.desugar.flatMap fun f ↦
        v.desugar.flatMap fun g ↦ always (a, b, c, d, e, f, g)
  | _, keepLeft p q => p.desugar.flatMap fun a ↦ q.desugar.flatMap fun _ ↦ always a
  | _, keepRight p q => p.desugar.flatMap fun _ ↦ q.desugar.flatMap fun b ↦ always b
  | _, skipBoth p q => p.desugar.flatMap fun _ ↦ q.desugar.flatMap fun _ ↦ always ()
  | _, apply p q => p.desugar.flatMap fun f ↦ q.desugar.flatMap fun a ↦ always (f a)
  | _, attempt p => p.desugar.attempt
  | _, sealed p => p.desugar

/-- Only primitives, `attempt`, `flatMap` and `always` occur in the parser. -/
def IsCore : {α : Type} → Parser α → Prop
  | _, integer | _, float | _, anyChar | _, literal _ | _, always _ | _, never => True
  | _, attempt p => p.IsCore
  | _, flatMap p next => p.IsCore ∧ ∀ a, (next a).IsCore
  | _, _ => False

theorem isCore_desugar (p : Parser α) : p.desugar.IsCore := by
  induction p with
  | integer | float | anyChar | literal expected | always value | never => trivial
  | attempt p ih | sealed p ih => exact ih
  | map f p ih => exact ⟨ih, fun _ ↦ trivial⟩
  | flatMap p next ih ihnext => exact ⟨ih, ihnext⟩
  | zip p q ihp ihq | keepLeft p q ihp ihq | keepRight p q ihp ihq | skipBoth p q ihp ihq
  | apply p q ihp ihq => exact ⟨ihp, fun _ ↦ ⟨ihq, fun _ ↦ trivial⟩⟩
  | zip3 p q r ihp ihq ihr => exact ⟨ihp, fun _ ↦ ⟨ihq, fun _ ↦ ⟨ihr, fun _ ↦ trivial⟩⟩⟩
  | zip4 p q r s ihp ihq ihr ihs =>
    exact ⟨ihp, fun _ ↦ ⟨ihq, fun _ ↦ ⟨ihr, fun _ ↦ ⟨ihs, fun _ ↦ trivial⟩⟩⟩⟩
  | zip5 p q r s t ihp ihq ihr ihs iht =>
    exact ⟨ihp, fun _ ↦ ⟨ihq, fun _ ↦ ⟨ihr, fun _ ↦ ⟨ihs, fun _ ↦ ⟨iht, fun _ ↦ trivial⟩⟩⟩⟩⟩
  | zip6 p q r s t u ihp ihq ihr ihs iht ihu =>
    exact ⟨ihp, fun _ ↦ ⟨ihq, fun _ ↦ ⟨ihr, fun _ ↦ ⟨ihs, fun _ ↦ ⟨iht, fun _ ↦ ⟨ihu, fun _ ↦
      trivial⟩⟩⟩⟩⟩⟩
  | zip7 p q r s t u v ihp ihq ihr ihs iht ihu ihv =>
    exact ⟨ihp, fun _ ↦ ⟨ihq, fun _ ↦ ⟨ihr, fun _ ↦ ⟨ihs, fun _ ↦ ⟨iht, fun _ ↦ ⟨ihu, fun _ ↦
      ⟨ihv, fun _ ↦ trivial⟩⟩⟩⟩⟩⟩⟩

theorem run_desugar (p : Parser α) : p.desugar.run = p.run := by
  -- At each node, the expansion is undone first, and then the parts are replaced in the node.
  induction p with
  | integer | float | anyChar | literal expected | always value | never => rfl
  | map f p ih => rw [desugar, ← (Expands.map f p.desugar).run_eq, run, run, ih]
  | flatMap p next ih ihnext => simp only [desugar, run, ih, ihnext]
  | zip p q ihp ihq => rw [desugar, ← (Expands.zip _ _).run_eq, run, run, ihp, ihq]
  | zip3 p q r ihp ihq ihr =>
    rw [desugar, ← (Expands.zip3 _ _ _).run_eq, run, run, ihp, ihq, ihr]
  | zip4 p q r s ihp ihq ihr ihs =>
    rw [desugar, ← (Expands.zip4 _ _ _ _).run_eq, run, run, ihp, ihq, ihr, ihs]
  | zip5 p q r s t ihp ihq ihr ihs iht =>
    rw [desugar, ← (Expands.zip5 _ _ _ _ _).run_eq, run, run, ihp, ihq, ihr, ihs, iht]
  | zip6 p q r s t u ihp ihq ihr ihs iht ihu =>
    rw [desugar, ← (Expands.zip6 _ _ _ _ _ _).run_eq, run, run, ihp, ihq, ihr, ihs, iht, ihu]
  | zip7 p q r s t u v ihp ihq ihr ihs iht ihu ihv =>
    rw [desugar, ← (Expands.zip7 _ _ _ _ _ _ _).run_eq, run, run, ihp, ihq, ihr, ihs, iht, ihu,
      ihv]
  | keepLeft p q ihp ihq => rw [desugar, ← (Expands.keepLeft _ _).run_eq, run, run, ihp, ihq]
  | keepRight p q ihp ihq => rw [desugar, ← (Expands.keepRight _ _).run_eq, run, run, ihp, ihq]
  | skipBoth p q ihp ihq => rw [desugar, ← (Expands.skipBoth _ _).run_eq, run, run, ihp, ihq]
  | apply p q ihp ihq => rw [desugar, ← (Expands.apply _ _).run_eq, run, run, ihp, ihq]
  | attempt p ih => rw [desugar, run, run, ih]
  | sealed p ih => rw [desugar, (Expands.sealed p).run_eq, ih]

theorem parseReporting_eq_of_run_eq {p q : Parser α} (h : p.run = q.run) (text : String) :
    p.parseReporting text = q.parseReporting text := by
  rw [parseReporting, parseReporting, h]

/-- **Two combinators suffice.** Every expansion and every law of `flatMap` and `always` is an
equation of scans: output, cursor and events are the same at every cursor. So a parser with all its
combinators expanded, also in the parsers that its outputs choose, runs as it did and parses every
text with the same report. -/
theorem run_eq_of_expands_and_desugar :
    (∀ {α : Type} {p q : Parser α}, Expands p q → p.run = q.run) ∧
    ∀ {α : Type} (p : Parser α), p.desugar.IsCore ∧ p.desugar.run = p.run ∧
      ∀ text, p.desugar.parseReporting text = p.parseReporting text ∧
        p.desugar.parse text = p.parse text := by
  refine ⟨Expands.run_eq, fun p ↦ ⟨p.isCore_desugar, p.run_desugar, fun text ↦ ?_⟩⟩
  have hreport := parseReporting_eq_of_run_eq p.run_desugar text
  exact ⟨hreport, congrArg Result.output hreport⟩

/-- A sequence that fails behind its first part, written by the operator and in full, and a pair in
a parser that an output chooses. -/
theorem run_eq_of_expands_and_desugar_shiftRight :
    Expands (integer >>> literal "y") (integer.flatMap fun _ ↦ (literal "y").flatMap always) ∧
      (integer >>> literal "y").run =
        (integer.flatMap fun _ ↦ (literal "y").flatMap always).run ∧
      ((integer.flatMap fun _ ↦ (literal "y").flatMap always).run (Cursor.start "12x")).cursor =
        ⟨"12x", 2⟩ ∧
      (anyChar.flatMap fun c ↦ (literal (String.singleton c)).zip integer).desugar.parse "éé7" =
        some ((), 7) := by
  have hexpands := Expands.shiftRight integer (literal "y")
  obtain ⟨hequation, hdesugar⟩ := run_eq_of_expands_and_desugar
  have hparse : (anyChar.flatMap fun c ↦ (literal (String.singleton c)).zip integer).parse "éé7" =
      some ((), 7) := by decide +kernel
  obtain ⟨-, -, hwhole⟩ := hdesugar (anyChar.flatMap fun c ↦
    (literal (String.singleton c)).zip integer)
  exact ⟨hexpands, hequation hexpands, by decide +kernel, (hwhole "éé7").2.trans hparse⟩

end PrefixParsing.Parser
