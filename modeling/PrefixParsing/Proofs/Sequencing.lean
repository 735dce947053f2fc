import PrefixParsing.Parser

/-!
# Parsers in sequence

Most combinators put parsers in sequence and differ in what they make of the outputs. This file
states the part that they share. `inOrder` runs any parsers one after the other and keeps all
outputs; `Parser.HasParts` tells, for a combinator, which parsers it puts in sequence; and
`Parser.HasParts.exists_run_eq` says that the combinator runs its parts in order and then applies a
function to their outputs.

## Outputs of different types

The parts may produce values of different types, so a list of them carries the type with each
parser, and their outputs together have a type that is computed from the list.
-/

namespace PrefixParsing

/-- A parser together with the type of what it produces. -/
structure AnyParser where
  {Output : Type}
  parser : Parser Output

namespace AnyParser

/-- One output for each parser. -/
abbrev Outputs : List AnyParser → Type
  | [] => Unit
  | p :: ps => p.Output × Outputs ps

/-- Runs the parsers one after the other, up to the first one that fails. -/
def inOrder : (ps : List AnyParser) → Scan (Outputs ps)
  | [] => pure ()
  | p :: ps => do
    let a ← p.parser.run
    let others ← inOrder ps
    pure (a, others)

end AnyParser

namespace Parser

open AnyParser

/-- `HasParts p ps` says that `p` puts the parsers `ps` in sequence. -/
inductive HasParts : {α : Type} → Parser α → List AnyParser → Prop where
  | zip {α β : Type} (p : Parser α) (q : Parser β) : HasParts (p.zip q) [⟨p⟩, ⟨q⟩]
  | zip3 {α β γ : Type} (p : Parser α) (q : Parser β) (r : Parser γ) :
      HasParts (p.zip3 q r) [⟨p⟩, ⟨q⟩, ⟨r⟩]
  | zip4 {α β γ δ : Type} (p : Parser α) (q : Parser β) (r : Parser γ) (s : Parser δ) :
      HasParts (p.zip4 q r s) [⟨p⟩, ⟨q⟩, ⟨r⟩, ⟨s⟩]
  | zip5 {α β γ δ ε : Type} (p : Parser α) (q : Parser β) (r : Parser γ) (s : Parser δ)
      (t : Parser ε) : HasParts (p.zip5 q r s t) [⟨p⟩, ⟨q⟩, ⟨r⟩, ⟨s⟩, ⟨t⟩]
  | zip6 {α β γ δ ε ζ : Type} (p : Parser α) (q : Parser β) (r : Parser γ) (s : Parser δ)
      (t : Parser ε) (u : Parser ζ) :
      HasParts (p.zip6 q r s t u) [⟨p⟩, ⟨q⟩, ⟨r⟩, ⟨s⟩, ⟨t⟩, ⟨u⟩]
  | zip7 {α β γ δ ε ζ η : Type} (p : Parser α) (q : Parser β) (r : Parser γ) (s : Parser δ)
      (t : Parser ε) (u : Parser ζ) (v : Parser η) :
      HasParts (p.zip7 q r s t u v) [⟨p⟩, ⟨q⟩, ⟨r⟩, ⟨s⟩, ⟨t⟩, ⟨u⟩, ⟨v⟩]
  | keepLeft {α β : Type} (p : Parser α) (q : Parser β) : HasParts (p.keepLeft q) [⟨p⟩, ⟨q⟩]
  | keepRight {α β : Type} (p : Parser α) (q : Parser β) : HasParts (p.keepRight q) [⟨p⟩, ⟨q⟩]
  | skipBoth {α β : Type} (p : Parser α) (q : Parser β) : HasParts (p.skipBoth q) [⟨p⟩, ⟨q⟩]
  | apply {α β : Type} (p : Parser (α → β)) (q : Parser α) : HasParts (p.apply q) [⟨p⟩, ⟨q⟩]

/-- A combinator that puts parsers in sequence runs them in order, and makes its output of
theirs. -/
theorem HasParts.exists_run_eq {α : Type} {p : Parser α} {ps : List AnyParser}
    (h : HasParts p ps) : ∃ f : Outputs ps → α, p.run = f <$> inOrder ps := by
  cases h with
  | zip p q => exact ⟨fun (a, b, ()) ↦ (a, b), by simp [inOrder, run]⟩
  | zip3 p q r => exact ⟨fun (a, b, c, ()) ↦ (a, b, c), by simp [inOrder, run]⟩
  | zip4 p q r s => exact ⟨fun (a, b, c, d, ()) ↦ (a, b, c, d), by simp [inOrder, run]⟩
  | zip5 p q r s t => exact ⟨fun (a, b, c, d, e, ()) ↦ (a, b, c, d, e), by simp [inOrder, run]⟩
  | zip6 p q r s t u =>
    exact ⟨fun (a, b, c, d, e, f, ()) ↦ (a, b, c, d, e, f), by simp [inOrder, run]⟩
  | zip7 p q r s t u v =>
    exact ⟨fun (a, b, c, d, e, f, g, ()) ↦ (a, b, c, d, e, f, g), by simp [inOrder, run]⟩
  | keepLeft p q => exact ⟨fun (a, _, ()) ↦ a, by simp [inOrder, run]⟩
  | keepRight p q => exact ⟨fun (_, b, ()) ↦ b, by simp [inOrder, run]⟩
  | skipBoth p q => exact ⟨fun _ ↦ (), by simp [inOrder, run]⟩
  | apply p q => exact ⟨fun (f, a, ()) ↦ f a, by simp [inOrder, run]⟩

/-! ## Longer sequences

A tuple is a pair of its first component and the tuple of the others, and a sequence of several
parsers is accordingly the sequence of the first one and of the others. -/

section

variable {α β γ δ ε ζ η : Type} (p : Parser α) (q : Parser β) (r : Parser γ) (s : Parser δ)
  (t : Parser ε) (u : Parser ζ) (v : Parser η)

theorem run_zip3 : (p.zip3 q r).run = (p.zip (q.zip r)).run := by
  simp [run]

theorem run_zip4 : (p.zip4 q r s).run = (p.zip (q.zip3 r s)).run := by
  simp [run]

theorem run_zip5 : (p.zip5 q r s t).run = (p.zip (q.zip4 r s t)).run := by
  simp [run]

theorem run_zip6 : (p.zip6 q r s t u).run = (p.zip (q.zip5 r s t u)).run := by
  simp [run]

theorem run_zip7 : (p.zip7 q r s t u v).run = (p.zip (q.zip6 r s t u v)).run := by
  simp [run]

end

end Parser

end PrefixParsing
