import PrefixParsing.Proofs.Locality
import PrefixParsing.Session

/-!
# Where the cursors of a session can stand

A session can do three things to a cursor: lead it forward past characters that are ahead, send it
to a saved offset, and make it a copy of another one. `Session.Moves` lists them, and
`Session.step_eq_some` says that every step is one of them, and what it saves. What holds in all
sessions is then shown for these three moves, without a case for each step.

## Offsets and boundaries

An offset never exceeds the size of the text, in any session. That it lies between two characters is
another matter, because a slot may hold an offset that was saved in another text. It does in the
sessions that restore a checkpoint only in the text in which it was taken. The texts of the slots
are no part of a session, so `Session.KeepsToTexts` carries them beside it.
-/

namespace PrefixParsing

universe u

open Text

/-! ## Leading a cursor forward -/

namespace Cursor

/-- `c'` is `c` past some of the characters that are ahead of it. -/
def LeadsTo (c c' : Cursor) : Prop := ∃ a b, c.rest = a ++ b ∧ c' = c.past a

theorem LeadsTo.refl (c : Cursor) : c.LeadsTo c := ⟨[], c.rest, rfl, rfl⟩

theorem LeadsTo.source_eq {c c' : Cursor} (h : c.LeadsTo c') : c'.source = c.source := by
  obtain ⟨a, b, -, rfl⟩ := h
  rfl

theorem LeadsTo.offset_le {c c' : Cursor} (h : c.LeadsTo c') : c.offset ≤ c'.offset := by
  obtain ⟨a, b, -, rfl⟩ := h
  exact Nat.le_add_right _ _

theorem LeadsTo.inBounds {c c' : Cursor} (h : c.LeadsTo c') (hc : c.InBounds) : c'.InBounds := by
  obtain ⟨a, b, hrest, rfl⟩ := h
  exact hc.past hrest

theorem LeadsTo.onBoundary {c c' : Cursor} (h : c.LeadsTo c') (hc : c.OnBoundary) :
    c'.OnBoundary := by
  obtain ⟨a, b, hrest, rfl⟩ := h
  exact hc.past hrest

theorem leadsTo_advance (c : Cursor) (n : Nat) : c.LeadsTo (c.advance n) :=
  ⟨c.rest.take n, c.rest.drop n, (List.take_append_drop n c.rest).symm, c.advance_eq n⟩

theorem leadsTo_of_advanceExactly {c c' : Cursor} {n : Nat} (h : c.advanceExactly n = .ok c') :
    c.LeadsTo c' := by
  obtain ⟨-, rfl⟩ := advanceExactly_eq_ok_iff.mp h
  exact leadsTo_advance c n

/-- Running a parser leads the cursor forward, after a failure too. -/
theorem InBounds.leadsTo_run {α : Type} {c : Cursor} (hc : c.InBounds) (p : Parser α) :
    c.LeadsTo (p.run c).cursor := by
  obtain ⟨output, consumed, rest, events, hyields⟩ := p.local_run c.rest
  refine ⟨consumed, rest, hyields.text_eq, ?_⟩
  rw [hyields.apply_eq c hc rfl]

theorem restore_inBounds (c : Cursor) (saved : Checkpoint) : (c.restore saved).InBounds :=
  Nat.min_le_right _ _

/-- A place of the text is reached exactly. -/
theorem restore_onBoundary {c : Cursor} {saved : Checkpoint}
    (h : IsBoundary c.source.toList saved.offset) : (c.restore saved).OnBoundary := by
  have hle : saved.offset ≤ c.size := by
    rw [size_eq]
    exact h.le_byteSize
  rw [OnBoundary, restore, Nat.min_eq_left hle]
  exact h

end Cursor

/-! ## Steps -/

/-- The slot in which a step saves a checkpoint. -/
def Step.savesTo {π : Type u} : Step π → Option String
  | .save slot => some slot
  | _ => none

namespace Session

variable {ρ : Type}

/-- What a step can do to the cursor `c` that it is asked of. -/
inductive Moves (s : Session) (c : Cursor) : Step (Parser ρ) → Cursor → Prop where
  | forward {what : Step (Parser ρ)} {c' : Cursor} (h : c.LeadsTo c') : Moves s c what c'
  | restore {slot : String} {saved : Checkpoint} (h : s.slots.lookup slot = some saved) :
      Moves s c (.restore slot) (c.restore saved)
  | copy {other : Nat} {c' : Cursor} (h : s.cursors[other]? = some c') :
      Moves s c (.copy other) c'

/-- A step moves the cursor that it is asked of, and saves at most the offset of that cursor. -/
theorem step_eq_some {s s' : Session} {i : Nat} {what : Step (Parser ρ)} {reply : Reply ρ}
    (hs : ∀ c ∈ s.cursors, c.InBounds) (h : s.step i what = some (reply, s')) :
    ∃ c c', s.cursors[i]? = some c ∧ s.Moves c what c' ∧
      s' = ⟨s.cursors.set i c',
        (what.savesTo.map fun slot ↦ (slot, c.checkpoint)).toList ++ s.slots⟩ := by
  obtain ⟨c, hc, heffect⟩ := Option.bind_eq_some_iff.mp h
  have hset : s.cursors.set i c = s.cursors := by
    obtain ⟨hi, rfl⟩ := List.getElem?_eq_some_iff.mp hc
    exact List.set_getElem_self hi
  -- a step that only looks leaves the session as it would be with the cursor put back
  have hself : s = ⟨s.cursors.set i c, s.slots⟩ := by rw [hset]
  have hstay : s.Moves c what c := .forward (.refl c)
  refine ⟨c, ?_⟩
  cases what with
  | advance n =>
    cases heffect
    exact ⟨_, hc, .forward (c.leadsTo_advance n), rfl⟩
  | advanceExactly n =>
    cases hn : c.advanceExactly n with
    | ok c' =>
      simp only [hn] at heffect
      cases heffect
      exact ⟨c', hc, .forward (Cursor.leadsTo_of_advanceExactly hn), rfl⟩
    | error e =>
      simp only [hn] at heffect
      cases heffect
      exact ⟨c, hc, hstay, hself⟩
  | peek | value | source | position =>
    cases heffect
    exact ⟨c, hc, hstay, hself⟩
  | save slot =>
    cases heffect
    refine ⟨c, hc, hstay, ?_⟩
    rw [hset]
    rfl
  | restore slot =>
    obtain ⟨saved, hsaved, hput⟩ := Option.bind_eq_some_iff.mp heffect
    cases hput
    exact ⟨_, hc, .restore hsaved, rfl⟩
  | isAt slot =>
    obtain ⟨saved, -, hput⟩ := Option.bind_eq_some_iff.mp heffect
    cases hput
    exact ⟨c, hc, hstay, hself⟩
  | copy other =>
    obtain ⟨c', hc', hput⟩ := Option.bind_eq_some_iff.mp heffect
    cases hput
    exact ⟨c', hc, .copy hc', rfl⟩
  | equals other =>
    obtain ⟨c', -, hput⟩ := Option.bind_eq_some_iff.mp heffect
    cases hput
    exact ⟨c, hc, hstay, hself⟩
  | run p =>
    cases heffect
    exact ⟨_, hc, .forward ((hs c (List.mem_of_getElem? hc)).leadsTo_run p), rfl⟩

/-! ## Moves -/

namespace Moves

variable {s : Session} {c c' : Cursor} {what : Step (Parser ρ)}

theorem inBounds (h : s.Moves c what c') (hs : ∀ d ∈ s.cursors, d.InBounds) (hc : c.InBounds) :
    c'.InBounds := by
  cases h with
  | forward h => exact h.inBounds hc
  | restore h => exact c.restore_inBounds _
  | copy h => exact hs c' (List.mem_of_getElem? h)

theorem source_eq_or_copy (h : s.Moves c what c') :
    c'.source = c.source ∨ ∃ other, what = .copy other := by
  cases h with
  | forward h => exact Or.inl h.source_eq
  | restore h => exact Or.inl rfl
  | copy h => exact Or.inr ⟨_, rfl⟩

theorem offset_le_or (h : s.Moves c what c') :
    c.offset ≤ c'.offset ∨ (∃ slot, what = .restore slot) ∨ ∃ other, what = .copy other := by
  cases h with
  | forward h => exact Or.inl h.offset_le
  | restore h => exact Or.inr (Or.inl ⟨_, rfl⟩)
  | copy h => exact Or.inr (Or.inr ⟨_, rfl⟩)

end Moves

theorem inBounds_of_step {s s' : Session} {i : Nat} {what : Step (Parser ρ)} {reply : Reply ρ}
    (hs : ∀ c ∈ s.cursors, c.InBounds) (h : s.step i what = some (reply, s')) :
    ∀ c ∈ s'.cursors, c.InBounds := by
  obtain ⟨c, c', hc, hmove, rfl⟩ := step_eq_some hs h
  intro d hd
  rcases List.mem_or_eq_of_mem_set hd with hold | rfl
  · exact hs d hold
  · exact hmove.inBounds hs (hs c (List.mem_of_getElem? hc))

theorem lookup_saved_of_ne {α : Type} {savesTo : Option String} {slot : String}
    (h : savesTo ≠ some slot) (a : α) (slots : List (String × α)) :
    ((savesTo.map fun slot' ↦ (slot', a)).toList ++ slots).lookup slot = slots.lookup slot := by
  rcases savesTo with _ | slot'
  · rfl
  · have hbeq : (slot == slot') = false := beq_false_of_ne fun heq ↦ h (congrArg some heq.symm)
    simp only [Option.map_some, Option.toList_some, List.singleton_append, List.lookup_cons, hbeq]

/-! ## Reachable sessions -/

/-- The sessions that are reached from cursors at the starts of any texts, by any steps. The
parsers that are run may each have outputs of their own type. -/
inductive Reachable : Session → Prop where
  | start (sources : List String) : Reachable (start sources)
  | step {ρ : Type} {s s' : Session} {i : Nat} {what : Step (Parser ρ)} {reply : Reply ρ}
      (h : Reachable s) (hstep : s.step i what = some (reply, s')) : Reachable s'

theorem Reachable.inBounds {s : Session} (h : Reachable s) : ∀ c ∈ s.cursors, c.InBounds := by
  induction h with
  | start sources =>
    intro c hc
    obtain ⟨source, -, rfl⟩ := List.mem_map.mp hc
    exact (Cursor.onBoundary_start source).inBounds
  | step _ hstep ih => exact inBounds_of_step ih hstep

/-- `KeepsToTexts s origins` says that `s` is reached by steps of which each restores a checkpoint
only to a cursor in the text in which it was taken. `origins` tells the text for each slot. -/
inductive KeepsToTexts : Session → List (String × String) → Prop where
  | start (sources : List String) : KeepsToTexts (start sources) []
  | step {ρ : Type} {s s' : Session} {origins : List (String × String)} {i : Nat} {c : Cursor}
      {what : Step (Parser ρ)} {reply : Reply ρ} (h : KeepsToTexts s origins)
      (hc : s.cursors[i]? = some c) (hstep : s.step i what = some (reply, s'))
      (hrestore : ∀ slot, what = .restore slot → origins.lookup slot = some c.source) :
      KeepsToTexts s' ((what.savesTo.map fun slot ↦ (slot, c.source)).toList ++ origins)

theorem KeepsToTexts.reachable {s : Session} {origins : List (String × String)}
    (h : KeepsToTexts s origins) : Reachable s := by
  induction h with
  | start sources => exact .start sources
  | step _ _ hstep _ ih => exact .step ih hstep

/-- Every cursor stands between two characters, and every slot holds such a place of the text in
which it was saved. -/
structure OnBoundaries (s : Session) (origins : List (String × String)) : Prop where
  cursors : ∀ c ∈ s.cursors, c.OnBoundary
  slots : ∀ slot saved source, s.slots.lookup slot = some saved →
    origins.lookup slot = some source → IsBoundary source.toList saved.offset

theorem Moves.onBoundary {s : Session} {origins : List (String × String)} {c c' : Cursor}
    {what : Step (Parser ρ)} (h : s.Moves c what c') (hs : s.OnBoundaries origins)
    (hc : c.OnBoundary)
    (hrestore : ∀ slot, what = .restore slot → origins.lookup slot = some c.source) :
    c'.OnBoundary := by
  cases h with
  | forward h => exact h.onBoundary hc
  | restore h => exact Cursor.restore_onBoundary (hs.slots _ _ _ h (hrestore _ rfl))
  | copy h => exact hs.cursors c' (List.mem_of_getElem? h)

/-- Saving the place of a cursor keeps the slots and their texts together. -/
theorem OnBoundaries.slots_append {s : Session} {origins : List (String × String)}
    (hs : s.OnBoundaries origins) {c : Cursor} (hc : c.OnBoundary) (savesTo : Option String)
    {slot source : String} {saved : Checkpoint}
    (hsaved : ((savesTo.map fun slot ↦ (slot, c.checkpoint)).toList ++ s.slots).lookup slot =
      some saved)
    (hsource : ((savesTo.map fun slot ↦ (slot, c.source)).toList ++ origins).lookup slot =
      some source) : IsBoundary source.toList saved.offset := by
  by_cases hslot : savesTo = some slot
  · subst hslot
    -- the new entry hides an older one of the same slot, in both lists
    obtain rfl := Option.some.inj (List.lookup_cons_self.symm.trans hsaved)
    obtain rfl := Option.some.inj (List.lookup_cons_self.symm.trans hsource)
    exact hc
  · rw [lookup_saved_of_ne hslot] at hsaved hsource
    exact hs.slots slot saved source hsaved hsource

theorem KeepsToTexts.onBoundaries {s : Session} {origins : List (String × String)}
    (h : KeepsToTexts s origins) : s.OnBoundaries origins := by
  induction h with
  | start sources =>
    refine ⟨fun c hc ↦ ?_, fun _ _ _ hsaved ↦ nomatch hsaved⟩
    obtain ⟨source, -, rfl⟩ := List.mem_map.mp hc
    exact Cursor.onBoundary_start source
  | step _ hc hstep hrestore ih =>
    obtain ⟨c, c', hc', hmove, rfl⟩ :=
      step_eq_some (fun d hd ↦ (ih.cursors d hd).inBounds) hstep
    obtain rfl := Option.some.inj (hc.symm.trans hc')
    have hboundary := ih.cursors _ (List.mem_of_getElem? hc)
    refine ⟨fun d hd ↦ ?_, fun _ _ _ hsaved hsource ↦ ?_⟩
    · rcases List.mem_or_eq_of_mem_set hd with hold | rfl
      · exact ih.cursors d hold
      · exact hmove.onBoundary ih hboundary hrestore
    · exact ih.slots_append hboundary _ hsaved hsource

/-! ## What a cursor on a boundary shows -/

end Session

namespace Cursor

theorem remaining_eq_empty_iff (c : Cursor) : c.remaining = "" ↔ c.rest = [] := by
  rw [remaining, String.ofList_eq_empty_iff]

theorem peek?_eq_none_iff (c : Cursor) : c.peek? = none ↔ c.rest = [] := by
  rw [peek?, List.head?_eq_none_iff]

theorem exists_value_eq_error_iff (c : Cursor) : (∃ e, c.value = .error e) ↔ c.rest = [] := by
  rw [← peek?_eq_none_iff, value]
  cases c.peek? with
  | none => exact ⟨fun _ ↦ rfl, fun _ ↦ ⟨_, rfl⟩⟩
  | some x => exact ⟨(fun ⟨_, h⟩ ↦ nomatch h), (fun h ↦ nomatch h)⟩

/-- The text is the characters before the cursor and those ahead. -/
theorem OnBoundary.source_eq {c : Cursor} (h : c.OnBoundary) :
    c.source = String.ofList c.passed ++ c.remaining ∧
      (String.ofList c.passed).utf8ByteSize = c.offset := by
  obtain ⟨hsource, hsize⟩ := h.parts
  refine ⟨?_, ?_⟩
  · apply String.toList_injective
    rw [String.toList_append, remaining, String.toList_ofList, String.toList_ofList, hsource]
  · rw [utf8ByteSize_ofList, hsize]

end Cursor

namespace Session

/-- **The machine invariant.** In every session that can be reached, no offset is beyond its text; a
step changes a text only by a copy, and only the cursor that it is asked of; and stepping over
characters and running a parser lead no cursor back. If checkpoints are restored in their texts
only, every cursor stands between two characters, and the ways to see that nothing is ahead
agree. -/
theorem Reachable.cursor_invariant {s : Session} (hs : Reachable s) :
    (∀ c ∈ s.cursors, c.offset ≤ c.size) ∧
    (∀ {ρ : Type} {i : Nat} {what : Step (Parser ρ)} {reply : Reply ρ} {s' : Session},
      s.step i what = some (reply, s') → s'.cursors.length = s.cursors.length ∧
      ∀ j c c', s.cursors[j]? = some c → s'.cursors[j]? = some c' →
        (c'.source ≠ c.source → i = j ∧ ∃ other, what = .copy other) ∧
        ((∃ n, what = .advance n) ∨ (∃ n, what = .advanceExactly n) ∨ (∃ p, what = .run p) →
          c.offset ≤ c'.offset)) ∧
    ∀ origins, KeepsToTexts s origins → ∀ c ∈ s.cursors,
      c.OnBoundary ∧
      (c.source = String.ofList c.passed ++ c.remaining ∧
        (String.ofList c.passed).utf8ByteSize = c.offset) ∧
      (c.isEmpty ↔ c.remaining = "") ∧ (c.isEmpty ↔ c.peek? = none) ∧
      (c.isEmpty ↔ ∃ e, c.value = .error e) := by
  refine ⟨hs.inBounds, ?_, ?_⟩
  · intro ρ i what reply s' hstep
    obtain ⟨d, d', hd, hmove, rfl⟩ := step_eq_some hs.inBounds hstep
    refine ⟨List.length_set, fun j c c' hc hc' ↦ ?_⟩
    by_cases hij : i = j
    · subst hij
      obtain rfl := Option.some.inj (hd.symm.trans hc)
      have hi : i < s.cursors.length := (List.getElem?_eq_some_iff.mp hd).1
      obtain rfl := Option.some.inj ((List.getElem?_set_self hi).symm.trans hc')
      refine ⟨fun hne ↦ ⟨rfl, hmove.source_eq_or_copy.resolve_left hne⟩, fun hforward ↦ ?_⟩
      rcases hmove.offset_le_or with hle | ⟨_, rfl⟩ | ⟨_, rfl⟩
      · exact hle
      · simp at hforward
      · simp at hforward
    -- a cursor that is not asked stays as it is
    · obtain rfl := Option.some.inj (hc.symm.trans ((List.getElem?_set_ne hij).symm.trans hc'))
      exact ⟨fun hne ↦ absurd rfl hne, fun _ ↦ Nat.le_refl _⟩
  · intro origins hkeeps c hc
    have hboundary := hkeeps.onBoundaries.cursors c hc
    refine ⟨hboundary, hboundary.source_eq, ?_, ?_, ?_⟩
    · rw [hboundary.isEmpty_iff, c.remaining_eq_empty_iff]
    · rw [hboundary.isEmpty_iff, c.peek?_eq_none_iff]
    · rw [hboundary.isEmpty_iff, c.exists_value_eq_error_iff]

/-- A checkpoint behind a character of two bytes, restored to a cursor that has become a copy of the
one that saved it and has run to the end. -/
theorem Reachable.cursor_invariant_restored_copy :
    KeepsToTexts ⟨[⟨"éa", 2⟩, ⟨"éa", 2⟩], [("mark", ⟨2⟩)]⟩ [("mark", "éa")] ∧
      Reachable ⟨[⟨"éa", 2⟩, ⟨"éa", 2⟩], [("mark", ⟨2⟩)]⟩ ∧ (⟨"éa", 2⟩ : Cursor).OnBoundary ∧
      (⟨"éa", 2⟩ : Cursor).source =
        String.ofList (⟨"éa", 2⟩ : Cursor).passed ++ (⟨"éa", 2⟩ : Cursor).remaining := by
  have hadvance : Session.step ⟨[⟨"éa", 0⟩, ⟨"x", 0⟩], []⟩ 0 (.advance 1 : Step (Parser Char)) =
      some (.done, ⟨[⟨"éa", 2⟩, ⟨"x", 0⟩], []⟩) := rfl
  have hsave : Session.step ⟨[⟨"éa", 2⟩, ⟨"x", 0⟩], []⟩ 0 (.save "mark" : Step (Parser Char)) =
      some (.saved 2, ⟨[⟨"éa", 2⟩, ⟨"x", 0⟩], [("mark", ⟨2⟩)]⟩) := rfl
  have hcopy : Session.step ⟨[⟨"éa", 2⟩, ⟨"x", 0⟩], [("mark", ⟨2⟩)]⟩ 1
      (.copy 0 : Step (Parser Char)) =
      some (.done, ⟨[⟨"éa", 2⟩, ⟨"éa", 2⟩], [("mark", ⟨2⟩)]⟩) := rfl
  have hrun : Session.step ⟨[⟨"éa", 2⟩, ⟨"éa", 2⟩], [("mark", ⟨2⟩)]⟩ 1 (.run .anyChar) =
      some (.output (some 'a'), ⟨[⟨"éa", 2⟩, ⟨"éa", 3⟩], [("mark", ⟨2⟩)]⟩) := rfl
  have hrestore : Session.step ⟨[⟨"éa", 2⟩, ⟨"éa", 3⟩], [("mark", ⟨2⟩)]⟩ 1
      (.restore "mark" : Step (Parser Char)) =
      some (.done, ⟨[⟨"éa", 2⟩, ⟨"éa", 2⟩], [("mark", ⟨2⟩)]⟩) := rfl
  have hkeeps : KeepsToTexts ⟨[⟨"éa", 2⟩, ⟨"éa", 2⟩], [("mark", ⟨2⟩)]⟩ [("mark", "éa")] := by
    refine .step (.step (.step (.step (.step (.start ["éa", "x"]) rfl hadvance ?_) rfl hsave ?_)
      rfl hcopy ?_) rfl hrun ?_) rfl hrestore ?_
    · exact fun slot hslot ↦ nomatch hslot
    · exact fun slot hslot ↦ nomatch hslot
    · exact fun slot hslot ↦ nomatch hslot
    · exact fun slot hslot ↦ nomatch hslot
    · rintro slot ⟨⟩
      rfl
  have hreach := hkeeps.reachable
  obtain ⟨hboundary, ⟨hsource, -⟩, -⟩ :=
    hreach.cursor_invariant.2.2 _ hkeeps ⟨"éa", 2⟩ List.mem_cons_self
  exact ⟨hkeeps, hreach, hboundary, hsource⟩

end Session

end PrefixParsing
