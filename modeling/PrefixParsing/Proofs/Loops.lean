import Mathlib.Data.List.Induction
import PrefixParsing.Proofs.Concatenation

/-!
# Sequences are loops

Parsers in sequence do what a loop does that runs them one after the other on one cursor. The loop
ends at the first failure: the cursor stays where the failing parser has left it, past all that the
earlier ones consumed, and the later ones do not run. This holds for the chain that collects the
outputs of a list of parsers, for the tuples, and for every way to bracket nested tuples.

## The outputs of the parts

The parts of a sequence have outputs of different types, and the same parts give differently nested
tuples when they are bracketed differently. The loop forgets the nesting and lists each parser with
its output, as a `Component`. An output of a sequence is compared with it through the list of its
components (`ZipTree.components`), from which it can be recovered
(`ZipTree.components_injective`).

## The loop and how it ends

`loop` is a program. `EndsIn` says what it comes to without running it: all parsers pass, or some
pass and the next one fails. The induction over a sequence is on the second, where two parts are put
together by putting their passing parsers together; `EndsIn.loop_eq` leads back to the program.
-/

namespace PrefixParsing

/-! ## The loop -/

/-- How a loop over parsers ends. -/
structure LoopEnd where
  /-- Each parser with its output, if all of them have succeeded. -/
  outputs : Option (List Component)
  /-- Where the last parser that ran has left the cursor. -/
  cursor : Cursor
  /-- What was reported, in order. -/
  events : List Event

/-- The loop after the parsers `done`, with the cursor at `c` and `events` reported. -/
def loopFrom : List AnyParser → List Component → Cursor → List Event → LoopEnd
  | [], done, c, events => ⟨some done, c, events⟩
  | p :: ps, done, c, events =>
    match p.parser.run c with
    | ⟨some a, c', reported⟩ => loopFrom ps (done ++ [⟨p, a⟩]) c' (events ++ reported)
    | ⟨none, c', reported⟩ => ⟨none, c', events ++ reported⟩

/-- Runs parsers one after the other on one cursor, up to the first one that fails. -/
def loop (ps : List AnyParser) (c : Cursor) : LoopEnd := loopFrom ps [] c []

/-- The parsers of `ks` produce their values one after the other. They take the cursor from `c` to
`c'` and report `events`. -/
inductive Passes : List Component → Cursor → Cursor → List Event → Prop where
  | nil (c : Cursor) : Passes [] c c []
  | cons {k : Component} {ks : List Component} {c c' c'' : Cursor} {events events' : List Event}
      (h : k.parser.run c = ⟨some k.value, c', events⟩) (hs : Passes ks c' c'' events') :
      Passes (k :: ks) c c'' (events ++ events')

/-- What becomes of `ps` when they are run one after the other from `c` on. -/
inductive EndsIn : List AnyParser → Cursor → LoopEnd → Prop where
  /-- All parsers pass. -/
  | all {ks : List Component} {c c' : Cursor} {events : List Event} (h : Passes ks c c' events) :
      EndsIn (ks.map Component.toAnyParser) c ⟨some ks, c', events⟩
  /-- The parser behind those of `ks` fails, and none behind it has a part in the outcome. -/
  | failed {ks : List Component} {p : AnyParser} {later : List AnyParser} {c c' c'' : Cursor}
      {events events' : List Event} (h : Passes ks c c' events)
      (hp : p.parser.run c' = ⟨none, c'', events'⟩) :
      EndsIn (ks.map Component.toAnyParser ++ p :: later) c ⟨none, c'', events ++ events'⟩

theorem Passes.append {ks ls : List Component} {c c' c'' : Cursor} {events events' : List Event}
    (hks : Passes ks c c' events) (hls : Passes ls c' c'' events') :
    Passes (ks ++ ls) c c'' (events ++ events') := by
  induction hks with
  | nil c => exact hls
  | cons h _ ih =>
    rw [List.append_assoc]
    exact .cons h (ih hls)

/-- The loop goes on where the parsers that pass have left the cursor. -/
theorem Passes.loopFrom_append {ks : List Component} {c c' : Cursor} {reported : List Event}
    (h : Passes ks c c' reported) (ps : List AnyParser) (done : List Component)
    (events : List Event) :
    loopFrom (ks.map Component.toAnyParser ++ ps) done c events =
      loopFrom ps (done ++ ks) c' (events ++ reported) := by
  induction h generalizing done events with
  | nil c => rw [List.map_nil, List.nil_append, List.append_nil, List.append_nil]
  | cons h _ ih =>
    rw [List.map_cons, List.cons_append, loopFrom, h]
    simp only
    rw [ih, List.append_assoc, List.append_assoc, List.singleton_append]

theorem EndsIn.loop_eq {ps : List AnyParser} {c : Cursor} {e : LoopEnd} (h : EndsIn ps c e) :
    loop ps c = e := by
  cases h with
  | all h =>
    have hloop := h.loopFrom_append [] [] []
    rwa [List.append_nil] at hloop
  | failed h hp =>
    rw [loop, h.loopFrom_append, loopFrom, hp]
    rfl

/-- Parsers end in one of the two ways: one that passes is put in front of what becomes of the
others, and one that fails ends it. -/
theorem exists_endsIn (ps : List AnyParser) (c : Cursor) : ∃ e, EndsIn ps c e := by
  induction ps generalizing c with
  | nil => exact ⟨_, .all (.nil c)⟩
  | cons p ps ih =>
    rcases hp : p.parser.run c with ⟨_ | a, c', events⟩
    · exact ⟨_, .failed (.nil c) hp⟩
    · obtain ⟨e, he⟩ := ih c'
      cases he with
      | all h => exact ⟨_, .all (.cons (k := ⟨p, a⟩) hp h)⟩
      | failed h hq => exact ⟨_, .failed (.cons (k := ⟨p, a⟩) hp h) hq⟩

theorem loop_eq_iff {ps : List AnyParser} {c : Cursor} {e : LoopEnd} :
    loop ps c = e ↔ EndsIn ps c e := by
  refine ⟨fun h ↦ ?_, EndsIn.loop_eq⟩
  obtain ⟨e', he'⟩ := exists_endsIn ps c
  rwa [← h, he'.loop_eq]

theorem EndsIn.append_of_none {ps : List AnyParser} {c c' : Cursor} {events : List Event}
    (h : EndsIn ps c ⟨none, c', events⟩) (qs : List AnyParser) :
    EndsIn (ps ++ qs) c ⟨none, c', events⟩ := by
  cases h with
  | failed h hp =>
    rw [List.append_assoc]
    exact .failed h hp

theorem EndsIn.append_of_some {ps qs : List AnyParser} {ks : List Component} {c c' : Cursor}
    {events : List Event} {e : LoopEnd} (h : EndsIn ps c ⟨some ks, c', events⟩)
    (he : EndsIn qs c' e) :
    EndsIn (ps ++ qs) c ⟨e.outputs.map (ks ++ ·), e.cursor, events ++ e.events⟩ := by
  cases h with
  | all h =>
    cases he with
    | all h' =>
      rw [← List.map_append]
      exact .all (h.append h')
    | failed h' hp =>
      rw [← List.append_assoc, ← List.map_append, ← List.append_assoc]
      exact .failed (h.append h') hp

/-! ## Parsers that run as a loop -/

/-- The outcome with its output as a list of components. -/
def Outcome.listed {α : Type} (outcome : Outcome α) (list : α → List Component) : LoopEnd :=
  ⟨outcome.output.map list, outcome.cursor, outcome.events⟩

namespace Parser

variable {α β : Type}

/-- `p` runs as the loop over `ps`, and `list` gives the components of its output. -/
def RunsAs (p : Parser α) (ps : List AnyParser) (list : α → List Component) : Prop :=
  ∀ c, EndsIn ps c ((p.run c).listed list)

theorem runsAs_single (p : Parser α) : p.RunsAs [⟨p⟩] fun a ↦ [⟨⟨p⟩, a⟩] := by
  intro c
  rcases h : p.run c with ⟨_ | a, c', events⟩
  · exact .failed (.nil c) h
  · have hpasses : Passes [⟨⟨p⟩, a⟩] c c' (events ++ []) := .cons h (.nil c')
    rw [List.append_nil] at hpasses
    exact .all hpasses

theorem runsAs_always (a : α) : (always a).RunsAs [] fun _ ↦ [] := fun c ↦ .all (.nil c)

theorem RunsAs.of_run_eq {p q : Parser α} {ps : List AnyParser} {list : α → List Component}
    (h : q.RunsAs ps list) (hrun : p.run = q.run) : p.RunsAs ps list := by
  intro c
  rw [hrun]
  exact h c

theorem run_map_apply (f : α → β) (p : Parser α) (c : Cursor) :
    (map f p).run c = ⟨(p.run c).output.map f, (p.run c).cursor, (p.run c).events⟩ := by
  rw [← Scan.map_apply, run, bind_pure_comp]

/-- Only the outputs that can arise have to be listed alike. -/
theorem RunsAs.map {p : Parser α} {ps : List AnyParser} {list : α → List Component} {f : α → β}
    {list' : β → List Component} (h : p.RunsAs ps list)
    (hlist : ∀ c a, (p.run c).output = some a → list' (f a) = list a) :
    (map f p).RunsAs ps list' := by
  intro c
  have hlisted : ((p.run c).output.map f).map list' = (p.run c).output.map list := by
    cases houtput : (p.run c).output with
    | none => rfl
    | some a => exact congrArg some (hlist c a houtput)
  rw [run_map_apply, Outcome.listed, hlisted]
  exact h c

theorem run_zip_of_none {p : Parser α} {c c' : Cursor} {events : List Event}
    (hp : p.run c = ⟨none, c', events⟩) (q : Parser β) :
    (p.zip q).run c = ⟨none, c', events⟩ :=
  Scan.bind_apply_of_none hp _

/-- Behind a parser that passes, the pair is the second parser with the first output added. -/
theorem run_zip_of_some {p : Parser α} {c c' : Cursor} {a : α} {events : List Event}
    (hp : p.run c = ⟨some a, c', events⟩) (q : Parser β) :
    (p.zip q).run c =
      ⟨(q.run c').output.map (a, ·), (q.run c').cursor, events ++ (q.run c').events⟩ := by
  have hsecond := run_map_apply (a, ·) q c'
  refine (Scan.bind_apply_of_some hp _).trans ?_
  change (⟨((map (a, ·) q).run c').output, ((map (a, ·) q).run c').cursor,
    events ++ ((map (a, ·) q).run c').events⟩ : Outcome (α × β)) = _
  rw [hsecond]

theorem output_eq_of_run_zip {p : Parser α} {q : Parser β} {c : Cursor} {ab : α × β}
    (h : ((p.zip q).run c).output = some ab) : (p.run c).output = some ab.1 := by
  rcases hp : p.run c with ⟨_ | a, c', events⟩
  · rw [run_zip_of_none hp] at h
    cases h
  · rw [run_zip_of_some hp] at h
    obtain ⟨b, -, rfl⟩ := Option.map_eq_some_iff.mp h
    rfl

theorem RunsAs.zip {p : Parser α} {q : Parser β} {ps qs : List AnyParser}
    {list : α → List Component} {list' : β → List Component} (hp : p.RunsAs ps list)
    (hq : q.RunsAs qs list') :
    (p.zip q).RunsAs (ps ++ qs) fun ab ↦ list ab.1 ++ list' ab.2 := by
  intro c
  have hfirst := hp c
  rcases hrun : p.run c with ⟨_ | a, c', events⟩
  · rw [hrun] at hfirst
    rw [run_zip_of_none hrun]
    exact hfirst.append_of_none qs
  · rw [hrun] at hfirst
    rw [run_zip_of_some hrun]
    have hboth := hfirst.append_of_some (hq c')
    simp only [Outcome.listed, Option.map_map] at hboth ⊢
    exact hboth

/-! ## Chains -/

/-- Each parser of a list with its output. -/
def listed (ps : List (Parser α)) (outputs : List α) : List Component :=
  List.zipWith (fun p a ↦ ⟨⟨p⟩, a⟩) ps outputs

theorem listed_append {ps qs : List (Parser α)} {as bs : List α} (h : as.length = ps.length) :
    listed (ps ++ qs) (as ++ bs) = listed ps as ++ listed qs bs :=
  List.zipWith_append h.symm

theorem sequence_append_singleton (ps : List (Parser α)) (p : Parser α) :
    sequence (ps ++ [p]) = zipWith (fun as a ↦ as ++ [a]) (sequence ps) p := by
  rw [sequence, List.foldl_append]
  rfl

theorem length_of_run_sequence {ps : List (Parser α)} {c : Cursor} {outputs : List α}
    (h : ((sequence ps).run c).output = some outputs) : outputs.length = ps.length := by
  induction ps using List.reverseRecOn generalizing outputs with
  | nil =>
    obtain rfl := Option.some.inj h
    rfl
  | append_singleton ps p ih =>
    rw [sequence_append_singleton, zipWith, run_map_apply] at h
    obtain ⟨⟨as, a⟩, hzip, rfl⟩ := Option.map_eq_some_iff.mp h
    rw [List.length_append, List.length_append, ih (output_eq_of_run_zip hzip)]
    rfl

/-- The chain runs as the loop. The induction takes off the parser that was added last, which is the
one that the chain runs last. -/
theorem runsAs_sequence (ps : List (Parser α)) :
    (sequence ps).RunsAs (ps.map AnyParser.mk) (listed ps) := by
  induction ps using List.reverseRecOn with
  | nil => exact runsAs_always []
  | append_singleton ps p ih =>
    rw [sequence_append_singleton, List.map_append]
    refine (ih.zip (runsAs_single p)).map fun c ab hzip ↦ ?_
    exact listed_append (length_of_run_sequence (output_eq_of_run_zip hzip))

end Parser

/-! ## Parsers in order

The outputs of parsers that run in order have types of their own, and there is one output for each
parser. Listed with their parsers, they are the outputs of the loop. -/

namespace AnyParser

/-- Each parser with its output. -/
def components : (ps : List AnyParser) → Outputs ps → List Component
  | [], _ => []
  | p :: ps, outputs => ⟨p, outputs.1⟩ :: components ps outputs.2

theorem inOrder_cons (p : AnyParser) (ps : List AnyParser) :
    inOrder (p :: ps) = p.parser.run >>= fun a ↦ (a, ·) <$> inOrder ps := by
  simp only [inOrder, bind_pure_comp]

/-- When others run behind a parser that joins the outputs of two, they run in order behind the
second of the two. -/
theorem bind_map_inOrder {α β γ δ : Type} {p : Parser α} {q : Parser β} {joined : Parser γ}
    {join : α → β → γ} (h : joined.run = p.run >>= fun a ↦ q.run >>= fun b ↦ pure (join a b))
    {ps : List AnyParser} (f : γ → Outputs ps → δ) :
    (joined.run >>= fun c ↦ f c <$> inOrder ps) =
      p.run >>= fun a ↦ (fun outputs ↦ f (join a outputs.1) outputs.2) <$> inOrder (⟨q⟩ :: ps) := by
  simp only [h, inOrder_cons, bind_assoc, pure_bind, map_bind, Functor.map_map]

theorem endsIn_inOrder (ps : List AnyParser) (c : Cursor) :
    EndsIn ps c ((inOrder ps c).listed (components ps)) := by
  induction ps generalizing c with
  | nil => exact .all (.nil c)
  | cons p ps ih =>
    have hfirst := p.parser.runsAs_single c
    rw [inOrder_cons]
    rcases hrun : p.parser.run c with ⟨_ | a, c', events⟩
    · rw [hrun] at hfirst
      rw [Scan.bind_apply_of_none hrun]
      exact hfirst.append_of_none ps
    · rw [hrun] at hfirst
      rw [Scan.bind_apply_of_some hrun, Scan.map_apply]
      have hboth := hfirst.append_of_some (ih c')
      simp only [Outcome.listed, Option.map_map] at hboth ⊢
      exact hboth

theorem loop_eq_listed_inOrder (ps : List AnyParser) (c : Cursor) :
    loop ps c = (inOrder ps c).listed (components ps) :=
  (endsIn_inOrder ps c).loop_eq

end AnyParser

/-! ## Tuples -/

namespace ZipTree

variable {α : Type}

theorem runsAs_components (t : ZipTree α) : t.parser.RunsAs t.leaves t.components :=
  pair_induction (motive := fun p ps list ↦ p.RunsAs ps list) Parser.runsAs_single
    (fun hp hq ↦ hp.zip hq) (fun hrun h ↦ h.of_run_eq hrun) t

/-- Nothing of an output is lost in its components, because each leaf has one of them. -/
theorem components_injective (t : ZipTree α) : t.components.Injective := by
  refine (pair_induction (motive := fun _ ps list ↦
    list.Injective ∧ ∀ a, (list a).map Component.toAnyParser = ps) ?_ ?_ (fun _ h ↦ h) t).1
  · refine fun p ↦ ⟨fun a b hab ↦ ?_, fun a ↦ rfl⟩
    injection hab with hab
    injection hab
  · rintro α β p q ps qs list list' ⟨hlist, hps⟩ ⟨hlist', hqs⟩
    refine ⟨fun ab ab' hab ↦ ?_, fun ab ↦ by rw [List.map_append, hps, hqs]⟩
    have hlength : (list ab.1).length = (list ab'.1).length := by
      rw [← List.length_map Component.toAnyParser, hps, ← hps ab'.1, List.length_map]
    obtain ⟨hfirst, hsecond⟩ := List.append_inj hab hlength
    exact Prod.ext (hlist hfirst) (hlist' hsecond)

/-- Different bracketings of the same parsers differ in the nesting of their outputs only. -/
theorem run_eq_of_leaves_eq {β : Type} {t : ZipTree α} {t' : ZipTree β}
    (h : t.leaves = t'.leaves) (c : Cursor) :
    (t.parser.run c).listed t.components = (t'.parser.run c).listed t'.components := by
  rw [← (t.runsAs_components c).loop_eq, ← (t'.runsAs_components c).loop_eq, h]

end ZipTree

namespace Parser

/-- **Sequences are loops.** The loop ends behind the last parser, with all outputs, or where the
first parser that fails has left the cursor. The chain that collects the outputs of a list is the
loop over the list, a flat tuple is the loop over its parts, and so is every bracketing of them: the
cursor and the events are the same, and the outputs have the same components. -/
theorem sequences_run_as_loops (place : Cursor) :
    (∀ ps e, loop ps place = e ↔ EndsIn ps place e) ∧
    (∀ {α : Type} (ps : List (Parser α)),
      loop (ps.map AnyParser.mk) place = ((sequence ps).run place).listed (listed ps) ∧
      ∀ outputs, ((sequence ps).run place).output = some outputs → outputs.length = ps.length) ∧
    (∀ {α β γ δ ε ζ η : Type} (p : Parser α) (q : Parser β) (r : Parser γ) (s : Parser δ)
      (t : Parser ε) (u : Parser ζ) (v : Parser η),
      loop [⟨p⟩, ⟨q⟩] place = ((p.zip q).run place).listed (fun (a, b) ↦ [⟨⟨p⟩, a⟩, ⟨⟨q⟩, b⟩]) ∧
      loop [⟨p⟩, ⟨q⟩, ⟨r⟩] place = ((p.zip3 q r).run place).listed
        (fun (a, b, c) ↦ [⟨⟨p⟩, a⟩, ⟨⟨q⟩, b⟩, ⟨⟨r⟩, c⟩]) ∧
      loop [⟨p⟩, ⟨q⟩, ⟨r⟩, ⟨s⟩] place = ((p.zip4 q r s).run place).listed
        (fun (a, b, c, d) ↦ [⟨⟨p⟩, a⟩, ⟨⟨q⟩, b⟩, ⟨⟨r⟩, c⟩, ⟨⟨s⟩, d⟩]) ∧
      loop [⟨p⟩, ⟨q⟩, ⟨r⟩, ⟨s⟩, ⟨t⟩] place = ((p.zip5 q r s t).run place).listed
        (fun (a, b, c, d, e) ↦ [⟨⟨p⟩, a⟩, ⟨⟨q⟩, b⟩, ⟨⟨r⟩, c⟩, ⟨⟨s⟩, d⟩, ⟨⟨t⟩, e⟩]) ∧
      loop [⟨p⟩, ⟨q⟩, ⟨r⟩, ⟨s⟩, ⟨t⟩, ⟨u⟩] place = ((p.zip6 q r s t u).run place).listed
        (fun (a, b, c, d, e, f) ↦
          [⟨⟨p⟩, a⟩, ⟨⟨q⟩, b⟩, ⟨⟨r⟩, c⟩, ⟨⟨s⟩, d⟩, ⟨⟨t⟩, e⟩, ⟨⟨u⟩, f⟩]) ∧
      loop [⟨p⟩, ⟨q⟩, ⟨r⟩, ⟨s⟩, ⟨t⟩, ⟨u⟩, ⟨v⟩] place = ((p.zip7 q r s t u v).run place).listed
        (fun (a, b, c, d, e, f, g) ↦
          [⟨⟨p⟩, a⟩, ⟨⟨q⟩, b⟩, ⟨⟨r⟩, c⟩, ⟨⟨s⟩, d⟩, ⟨⟨t⟩, e⟩, ⟨⟨u⟩, f⟩, ⟨⟨v⟩, g⟩])) ∧
    ∀ {α β : Type} (t : ZipTree α) (t' : ZipTree β), t.components.Injective ∧
      loop t.leaves place = (t.parser.run place).listed t.components ∧
      (t.leaves = t'.leaves →
        (t.parser.run place).cursor = (t'.parser.run place).cursor ∧
        (t.parser.run place).events = (t'.parser.run place).events ∧
        (t.parser.run place).output.map t.components =
          (t'.parser.run place).output.map t'.components) := by
  have htree {α : Type} (t : ZipTree α) :
      loop t.leaves place = (t.parser.run place).listed t.components :=
    (t.runsAs_components place).loop_eq
  refine ⟨fun ps e ↦ loop_eq_iff, fun ps ↦ ⟨(runsAs_sequence ps place).loop_eq, fun outputs h ↦
    length_of_run_sequence h⟩, fun p q r s t u v ↦ ?_, fun t t' ↦
    ⟨t.components_injective, htree t, fun h ↦ ?_⟩⟩
  -- a flat tuple is a bracketing whose parts are leaves
  · exact ⟨htree (.zip (.leaf p) (.leaf q)), htree (.zip3 (.leaf p) (.leaf q) (.leaf r)),
      htree (.zip4 (.leaf p) (.leaf q) (.leaf r) (.leaf s)),
      htree (.zip5 (.leaf p) (.leaf q) (.leaf r) (.leaf s) (.leaf t)),
      htree (.zip6 (.leaf p) (.leaf q) (.leaf r) (.leaf s) (.leaf t) (.leaf u)),
      htree (.zip7 (.leaf p) (.leaf q) (.leaf r) (.leaf s) (.leaf t) (.leaf u) (.leaf v))⟩
  · have hlisted := ZipTree.run_eq_of_leaves_eq h place
    exact ⟨congrArg LoopEnd.cursor hlisted, congrArg LoopEnd.events hlisted,
      congrArg LoopEnd.outputs hlisted⟩

/-- Two numbers with a comma between them. -/
def commaTriple : ZipTree (Int × Unit × Int) :=
  .zip3 (.leaf integer) (.leaf (literal ",")) (.leaf integer)

/-- The same parsers, the first two in a bracket. -/
def commaNested : ZipTree ((Int × Unit) × Int) :=
  .zip (.zip (.leaf integer) (.leaf (literal ","))) (.leaf integer)

/-- The last of three parsers fails, and both bracketings stay behind the comma; and a chain of two
that passes. -/
theorem sequences_run_as_loops_comma :
    commaTriple.leaves = commaNested.leaves ∧
      (commaTriple.parser.run ⟨"12,x", 0⟩).cursor = ⟨"12,x", 3⟩ ∧
      (commaNested.parser.run ⟨"12,x", 0⟩).cursor = ⟨"12,x", 3⟩ ∧
      ((sequence [anyChar, anyChar]).run ⟨"é1x", 0⟩).output = some ['é', '1'] ∧
      ['é', '1'].length = [anyChar, anyChar].length := by
  have hleaves : commaTriple.leaves = commaNested.leaves := rfl
  have htriple : (commaTriple.parser.run ⟨"12,x", 0⟩).cursor = ⟨"12,x", 3⟩ := by decide +kernel
  have hchain : ((sequence [anyChar, anyChar]).run ⟨"é1x", 0⟩).output = some ['é', '1'] := by
    decide +kernel
  obtain ⟨-, -, -, hbrackets⟩ := sequences_run_as_loops ⟨"12,x", 0⟩
  obtain ⟨-, hchains, -, -⟩ := sequences_run_as_loops ⟨"é1x", 0⟩
  obtain ⟨hcursor, -, -⟩ := (hbrackets commaTriple commaNested).2.2 hleaves
  exact ⟨hleaves, htriple, hcursor.symm.trans htriple, hchain, (hchains _).2 _ hchain⟩

end Parser

end PrefixParsing
