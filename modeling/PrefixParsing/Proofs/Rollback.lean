import PrefixParsing.Proofs.Sessions

/-!
# Going back

A checkpoint is an offset and nothing else, and to restore it is to put the offset back, at most to
the end of the text. So two things could keep a cursor from getting back to where its checkpoint was
taken: it could have come into another text, or the bound could cut the offset. Neither happens. All
that moves a cursor leaves it in its text (`Cursor.InTextOf`), and a cursor that was in bounds at
its checkpoint has an offset that this text reaches.

## Single cursors and sessions

A cursor alone goes through `Move`s, among which are failing runs and checkpoints of other texts. In
a session a cursor can also become a copy of another one, and a slot can be saved again. These are
the two steps that take the way back, and `Session.Spares` excludes no others. What carries the
induction there is that the cursor can return (`Session.CanReturn`).
-/

namespace PrefixParsing

/-! ## Moves of a cursor -/

/-- What can be done to a cursor to put it somewhere in its text. -/
inductive Move : Type 1 where
  | advance (n : Nat)
  | advanceExactly (n : Nat)
  | run {α : Type} (p : Parser α)
  | restore (saved : Checkpoint)

namespace Cursor

/-- The cursor after a move, which may have failed. -/
def perform (c : Cursor) : Move → Cursor
  | .advance n => c.advance n
  | .advanceExactly n =>
    match c.advanceExactly n with
    | .ok c' => c'
    | .error _ => c
  | .run p => (p.run c).cursor
  | .restore saved => c.restore saved

/-- The cursor after moves, one after the other. -/
def performAll (c : Cursor) (moves : List Move) : Cursor := moves.foldl perform c

/-- `c'` stands somewhere in the text of `c`. -/
structure InTextOf (c' c : Cursor) : Prop where
  source_eq : c'.source = c.source
  inBounds : c'.InBounds

variable {c c' : Cursor}

theorem InBounds.inTextOf_self (hc : c.InBounds) : c.InTextOf c := ⟨rfl, hc⟩

theorem InBounds.inTextOf_of_leadsTo (hc : c.InBounds) (h : c.LeadsTo c') : c'.InTextOf c :=
  ⟨h.source_eq, h.inBounds hc⟩

theorem InBounds.inTextOf_perform (hc : c.InBounds) (move : Move) :
    (c.perform move).InTextOf c := by
  cases move with
  | advance n => exact hc.inTextOf_of_leadsTo (c.leadsTo_advance n)
  | advanceExactly n =>
    cases h : c.advanceExactly n with
    | ok c' =>
      rw [perform, h]
      exact hc.inTextOf_of_leadsTo (leadsTo_of_advanceExactly h)
    | error e =>
      rw [perform, h]
      exact hc.inTextOf_self
  | run p => exact hc.inTextOf_of_leadsTo (hc.leadsTo_run p)
  | restore saved => exact ⟨rfl, c.restore_inBounds saved⟩

theorem InBounds.inTextOf_performAll (hc : c.InBounds) (moves : List Move) :
    (c.performAll moves).InTextOf c := by
  induction moves generalizing c with
  | nil => exact hc.inTextOf_self
  | cons move moves ih =>
    have hmove := hc.inTextOf_perform move
    have hmoves := ih hmove.inBounds
    exact ⟨hmoves.source_eq.trans hmove.source_eq, hmoves.inBounds⟩

/-- A restored cursor stands at the offset in its text, wherever in the text it was. -/
theorem InTextOf.restore_eq (h : c'.InTextOf c) (saved : Checkpoint) :
    c'.restore saved = c.restore saved := by
  rw [restore, restore, size, size, h.source_eq]

end Cursor

/-! ## Sessions -/

namespace Session

variable {i : Nat} {slot : String} {c : Cursor} {s s' : Session}

/-- `Spares i slot s s'` says that `s'` is reached from `s` by steps that neither make the cursor
number `i` a copy of another one nor save to `slot`. -/
inductive Spares (i : Nat) (slot : String) (s : Session) : Session → Prop where
  | refl : Spares i slot s s
  | step {ρ : Type} {s' s'' : Session} {j : Nat} {what : Step (Parser ρ)} {reply : Reply ρ}
      (h : Spares i slot s s') (hstep : s'.step j what = some (reply, s''))
      (hcopy : j = i → ∀ other, what ≠ .copy other) (hsave : what.savesTo ≠ some slot) :
      Spares i slot s s''

/-- The cursor number `i` stands somewhere in the text of `c`, and `slot` holds the place of `c`. -/
structure CanReturn (i : Nat) (slot : String) (c : Cursor) (s : Session) : Prop where
  inBounds : ∀ d ∈ s.cursors, d.InBounds
  cursor : ∃ c', s.cursors[i]? = some c' ∧ c'.source = c.source
  slot_eq : s.slots.lookup slot = some c.checkpoint

namespace CanReturn

theorem of_save {ρ : Type} {reply : Reply ρ} (hs : ∀ d ∈ s.cursors, d.InBounds)
    (hc : s.cursors[i]? = some c)
    (hsave : s.step i (.save slot : Step (Parser ρ)) = some (reply, s')) :
    s'.CanReturn i slot c := by
  simp only [Session.step, hc, Option.bind_eq_bind, Option.bind_some, Option.some.injEq,
    Prod.mk.injEq] at hsave
  obtain ⟨-, rfl⟩ := hsave
  exact ⟨hs, ⟨c, hc, rfl⟩, List.lookup_cons_self⟩

/-- A step that spares the cursor and the slot leaves the way back. -/
theorem step {ρ : Type} {j : Nat} {what : Step (Parser ρ)} {reply : Reply ρ}
    (h : s.CanReturn i slot c) (hstep : s.step j what = some (reply, s'))
    (hcopy : j = i → ∀ other, what ≠ .copy other) (hsave : what.savesTo ≠ some slot) :
    s'.CanReturn i slot c := by
  have hbounds := inBounds_of_step h.inBounds hstep
  obtain ⟨d, d', hd, hmove, rfl⟩ := step_eq_some h.inBounds hstep
  refine ⟨hbounds, ?_, ?_⟩
  · obtain ⟨c', hc', hsource⟩ := h.cursor
    by_cases hji : j = i
    · subst hji
      obtain rfl := Option.some.inj (hd.symm.trans hc')
      have hj : j < s.cursors.length := (List.getElem?_eq_some_iff.mp hd).1
      refine ⟨d', List.getElem?_set_self hj, ?_⟩
      rcases hmove.source_eq_or_copy with heq | ⟨other, hother⟩
      · exact heq.trans hsource
      · exact absurd hother (hcopy rfl other)
    · exact ⟨c', (List.getElem?_set_ne hji).trans hc', hsource⟩
  · exact (lookup_saved_of_ne hsave _ _).trans h.slot_eq

theorem of_spares (h : s.CanReturn i slot c) (hsteps : Spares i slot s s') :
    s'.CanReturn i slot c := by
  induction hsteps with
  | refl => exact h
  | step _ hstep hcopy hsave ih => exact ih.step hstep hcopy hsave

theorem exists_restore (h : s.CanReturn i slot c) (hc : c.InBounds) (ρ : Type) :
    ∃ s', s.step i (.restore slot : Step (Parser ρ)) = some (.done, s') ∧
      s'.cursors[i]? = some c ∧
      s'.step i (.isAt slot : Step (Parser ρ)) = some (.compared true, s') := by
  obtain ⟨c', hc', hsource⟩ := h.cursor
  have hback : c'.restore c.checkpoint = c := hc.restore_checkpoint hsource
  have hi : i < s.cursors.length := (List.getElem?_eq_some_iff.mp hc').1
  have hput : (s.put i c).cursors[i]? = some c := List.getElem?_set_self hi
  have hslot : (s.put i c).slots.lookup slot = some c.checkpoint := h.slot_eq
  refine ⟨s.put i c, ?_, hput, ?_⟩
  · simp only [Session.step, hc', h.slot_eq, Option.bind_eq_bind, Option.bind_some, hback]
  · simp only [Session.step, hput, hslot, Option.bind_eq_bind, Option.bind_some, decide_true]

end CanReturn

end Session

/-- **Going back is exact.** Whatever is done to a cursor in bounds, its checkpoint gives it back as
it was, and its place is again the one that was saved. The offset of another checkpoint is cut at
the end of the text, which is kept, and nothing that was done before it was restored makes a
difference. So it is in a session, with all that is done to the other cursors and saved in the other
slots. -/
theorem Cursor.InBounds.rollback_exact {c : Cursor} (hc : c.InBounds) :
    (∀ moves, (c.performAll moves).restore c.checkpoint = c ∧
      ((c.performAll moves).restore c.checkpoint).checkpoint = c.checkpoint) ∧
    (∀ saved : Checkpoint,
      (c.restore saved).offset = min saved.offset c.source.utf8ByteSize ∧
      (c.restore saved).source = c.source ∧
      (c.restore saved).restore saved = c.restore saved ∧
      (∀ earlier, (c.restore earlier).restore saved = c.restore saved) ∧
      ∀ moves, (c.performAll moves).restore saved = c.restore saved) ∧
    ∀ {ρ : Type} {reply : Reply ρ} {s s' s'' : Session} {i : Nat} {slot : String},
      (∀ d ∈ s.cursors, d.InBounds) → s.cursors[i]? = some c →
      s.step i (.save slot : Step (Parser ρ)) = some (reply, s') → Session.Spares i slot s' s'' →
      ∃ back, s''.step i (.restore slot : Step (Parser ρ)) = some (.done, back) ∧
        back.cursors[i]? = some c ∧
        back.step i (.isAt slot : Step (Parser ρ)) = some (.compared true, back) := by
  have hrestore (moves : List Move) (saved : Checkpoint) :
      (c.performAll moves).restore saved = c.restore saved :=
    (hc.inTextOf_performAll moves).restore_eq saved
  have hback (moves : List Move) : (c.performAll moves).restore c.checkpoint = c :=
    (hrestore moves c.checkpoint).trans (hc.restore_checkpoint rfl)
  refine ⟨fun moves ↦ ⟨hback moves, ?_⟩, fun saved ↦ ⟨rfl, rfl, ?_, ?_, ?_⟩, ?_⟩
  · rw [hback]
  · exact hrestore [.restore saved] saved
  · exact fun earlier ↦ hrestore [.restore earlier] saved
  · exact fun moves ↦ hrestore moves saved
  · intro ρ reply s s' s'' i slot hs hi hsave hsteps
    have hreturn := (Session.CanReturn.of_save hs hi hsave).of_spares hsteps
    exact hreturn.exists_restore hc ρ

/-- From inside a character, by a checkpoint beyond the end and a run that fails behind a character.
In the session the checkpoint is that of another cursor. -/
theorem Cursor.InBounds.rollback_exact_inside_character :
    (⟨"aé", 2⟩ : Cursor).InBounds ∧
      (⟨"aé", 2⟩ : Cursor).performAll
        [.restore ⟨7⟩, .advanceExactly 1, .restore ⟨0⟩, .run (.zip .anyChar .integer)] =
          ⟨"aé", 1⟩ ∧
      (⟨"aé", 1⟩ : Cursor).restore (⟨"aé", 2⟩ : Cursor).checkpoint = ⟨"aé", 2⟩ ∧
      ∃ back, Session.step ⟨[⟨"aé", 3⟩, ⟨"wxyz", 4⟩], [("here", ⟨2⟩), ("there", ⟨4⟩)]⟩ 0
          (.restore "here" : Step (Parser Char)) = some (.done, back) ∧
        back.cursors[0]? = some ⟨"aé", 2⟩ := by
  have hc : (⟨"aé", 2⟩ : Cursor).InBounds := by
    show 2 ≤ "aé".utf8ByteSize
    decide +kernel
  have hother : (⟨"wxyz", 4⟩ : Cursor).InBounds := by
    show 4 ≤ "wxyz".utf8ByteSize
    decide +kernel
  have hmoves : (⟨"aé", 2⟩ : Cursor).performAll
      [.restore ⟨7⟩, .advanceExactly 1, .restore ⟨0⟩, .run (.zip .anyChar .integer)] =
        ⟨"aé", 1⟩ := rfl
  have hsave : Session.step ⟨[⟨"aé", 2⟩, ⟨"wxyz", 4⟩], [("there", ⟨4⟩)]⟩ 0
      (.save "here" : Step (Parser Char)) =
      some (.saved 2, ⟨[⟨"aé", 2⟩, ⟨"wxyz", 4⟩], [("here", ⟨2⟩), ("there", ⟨4⟩)]⟩) := rfl
  have haway : Session.step ⟨[⟨"aé", 2⟩, ⟨"wxyz", 4⟩], [("here", ⟨2⟩), ("there", ⟨4⟩)]⟩ 0
      (.restore "there" : Step (Parser Char)) =
      some (.done, ⟨[⟨"aé", 3⟩, ⟨"wxyz", 4⟩], [("here", ⟨2⟩), ("there", ⟨4⟩)]⟩) := rfl
  have hspares : Session.Spares 0 "here"
      ⟨[⟨"aé", 2⟩, ⟨"wxyz", 4⟩], [("here", ⟨2⟩), ("there", ⟨4⟩)]⟩
      ⟨[⟨"aé", 3⟩, ⟨"wxyz", 4⟩], [("here", ⟨2⟩), ("there", ⟨4⟩)]⟩ := by
    refine .step .refl haway ?_ (Option.some_ne_none "here").symm
    intro _ other hcopy
    cases hcopy
  obtain ⟨hback, -, hsession⟩ := hc.rollback_exact
  have hreturned := hback [.restore ⟨7⟩, .advanceExactly 1, .restore ⟨0⟩,
    .run (.zip .anyChar .integer)]
  rw [hmoves] at hreturned
  obtain ⟨back, hrestored, hplace, -⟩ :=
    hsession (List.forall_mem_cons.mpr ⟨hc, List.forall_mem_singleton.mpr hother⟩) rfl hsave hspares
  exact ⟨hc, hmoves, hreturned.1, back, hrestored, hplace⟩

end PrefixParsing
