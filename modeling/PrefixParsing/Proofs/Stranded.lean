import PrefixParsing.Proofs.Relocation
import PrefixParsing.Proofs.Sessions

/-!
# Stranded cursors

A checkpoint that was taken in another text can send a cursor inside a character of its own text.
There the cursor is stranded. It sees nothing ahead, although it has not reached the end, and since
every way to move forward is to pass characters that are ahead, none of them moves it.

## How to tell

Off the boundaries `isEmpty`, which compares the offset with the size, and `remaining`, which cuts
the text, disagree. On a boundary they agree. So a cursor in bounds that claims not to be at the end
and shows nothing is stranded, and this is the only way in which the two can differ.

## How to leave

In a session a stranded cursor stays through all steps, its own and those of other cursors, except
for the two that do not start from where it stands: `Step.Relocates` names them. What holds of a
stranded cursor therefore holds all the time until one of these is asked of it.
-/

namespace PrefixParsing

universe u

namespace Cursor

theorem LeadsTo.eq_of_rest_eq_nil {c c' : Cursor} (h : c.LeadsTo c') (hc : c.rest = []) :
    c' = c := by
  obtain ⟨a, b, hrest, rfl⟩ := h
  obtain ⟨rfl, -⟩ := List.append_eq_nil_iff.mp (hrest.symm.trans hc)
  exact c.past_nil

/-- In bounds, only the end of the text is at or beyond its size, and the end is a boundary. -/
theorem InBounds.isEmpty_eq_false {c : Cursor} (hc : c.InBounds) (hb : ¬ c.OnBoundary) :
    c.isEmpty = false := by
  refine eq_false_of_ne_true fun hempty ↦ ?_
  have hsize : c.size ≤ c.offset := of_decide_eq_true hempty
  have hend : c = finish c.source :=
    congrArg (Cursor.mk c.source) (Nat.le_antisymm hc hsize)
  exact hb (hend ▸ onBoundary_finish c.source)

theorem InBounds.isEmpty_ne_iff {c : Cursor} (hc : c.InBounds) :
    c.isEmpty ≠ (c.remaining == "") ↔ ¬ c.OnBoundary := by
  by_cases hb : c.OnBoundary
  · have hiff : c.isEmpty = true ↔ (c.remaining == "") = true := by
      rw [hb.isEmpty_iff, beq_iff_eq, remaining_eq_empty_iff]
    exact ⟨fun hne ↦ absurd (Bool.eq_iff_iff.mpr hiff) hne, fun h ↦ absurd hb h⟩
  · have hremaining : c.remaining = "" :=
      c.remaining_eq_empty_iff.mpr (rest_eq_nil_of_not_onBoundary hb)
    rw [hc.isEmpty_eq_false hb, hremaining]
    exact ⟨fun _ ↦ hb, fun _ ↦ Bool.false_ne_true⟩

/-- What a cursor inside a character shows, and what becomes of it when it is asked to move. -/
structure Stranded (c : Cursor) : Prop where
  remaining_eq : c.remaining = ""
  isEmpty_eq : c.isEmpty = false
  peek?_eq : c.peek? = none
  value_eq : c.value = .error (.atEnd c.offset)
  advance_eq : ∀ n, c.advance n = c
  /-- No characters can be stepped over exactly. -/
  advanceExactly_zero : c.advanceExactly 0 = .ok c
  advanceExactly_of_ne_zero : ∀ n, n ≠ 0 →
    c.advanceExactly n = .error (.tooFewLeft c.offset n 0)
  /-- A run may succeed, but only without passing anything. -/
  run_cursor_eq : ∀ {α : Type} (p : Parser α), (p.run c).cursor = c

theorem InBounds.stranded {c : Cursor} (hc : c.InBounds) (hb : ¬ c.OnBoundary) : c.Stranded := by
  have hrest : c.rest = [] := rest_eq_nil_of_not_onBoundary hb
  have hpeek : c.peek? = none := c.peek?_eq_none_iff.mpr hrest
  have hadvance : ∀ n, c.advance n = c := fun n ↦ (c.leadsTo_advance n).eq_of_rest_eq_nil hrest
  have hlength : c.rest.length = 0 := by rw [hrest, List.length_nil]
  exact
    { remaining_eq := c.remaining_eq_empty_iff.mpr hrest
      isEmpty_eq := hc.isEmpty_eq_false hb
      peek?_eq := hpeek
      value_eq := by rw [value, hpeek]
      advance_eq := hadvance
      advanceExactly_zero := by rw [advanceExactly_eq, if_pos (Nat.zero_le _), hadvance]
      advanceExactly_of_ne_zero := fun n hn ↦ by
        rw [advanceExactly_eq, hlength, if_neg (by omega)]
      run_cursor_eq := fun p ↦ (hc.leadsTo_run p).eq_of_rest_eq_nil hrest }

end Cursor

/-! ## Steps -/

/-- The step goes on from where its cursor stands, or only looks. -/
inductive Step.Walks {π : Type u} : Step π → Prop where
  | advance (n : Nat) : Walks (.advance n)
  | advanceExactly (n : Nat) : Walks (.advanceExactly n)
  | peek : Walks .peek
  | value : Walks .value
  | run (p : π) : Walks (.run p)

/-- The step puts its cursor somewhere else, wherever it stands. -/
inductive Step.Relocates {π : Type u} : Step π → Prop where
  | restore (slot : String) : Relocates (.restore slot)
  | copy (other : Nat) : Relocates (.copy other)

namespace Session

variable {ρ : Type} {s s' : Session} {i j : Nat} {c : Cursor}

theorem put_self (h : s.cursors[i]? = some c) : s.put i c = s := by
  obtain ⟨hi, rfl⟩ := List.getElem?_eq_some_iff.mp h
  rw [put, List.set_getElem_self hi]

theorem exists_step_eq_self (h : s.cursors[i]? = some c) (hc : c.Stranded)
    {what : Step (Parser ρ)} (hwhat : what.Walks) : ∃ reply, s.step i what = some (reply, s) := by
  have hput : s.put i c = s := put_self h
  simp only [step, h, Option.bind_eq_bind, Option.bind_some]
  cases hwhat with
  | advance n => exact ⟨.done, by simp only [hc.advance_eq, hput]⟩
  | advanceExactly n =>
    by_cases hn : n = 0
    · subst hn
      exact ⟨.moved (.ok ()), by simp only [hc.advanceExactly_zero, hput]⟩
    · exact ⟨_, by simp only [hc.advanceExactly_of_ne_zero n hn]; rfl⟩
  | peek | value => exact ⟨_, rfl⟩
  | run p => exact ⟨.output (p.run c).output, by simp only [hc.run_cursor_eq, hput]⟩

/-- Only a step that relocates moves a cursor that sees nothing ahead. -/
theorem relocates_of_step {what : Step (Parser ρ)} {reply : Reply ρ}
    (hs : ∀ d ∈ s.cursors, d.InBounds) (hc : s.cursors[i]? = some c) (hrest : c.rest = [])
    (hstep : s.step j what = some (reply, s')) (hne : s'.cursors[i]? ≠ some c) :
    j = i ∧ what.Relocates := by
  obtain ⟨d, d', hd, hmove, rfl⟩ := step_eq_some hs hstep
  by_cases hij : j = i
  · subst hij
    obtain rfl := Option.some.inj (hd.symm.trans hc)
    refine ⟨rfl, ?_⟩
    cases hmove with
    | forward h =>
      rw [h.eq_of_rest_eq_nil hrest] at hne
      exact absurd (List.getElem?_set_self (List.getElem?_eq_some_iff.mp hd).1) hne
    | restore h => exact .restore _
    | copy h => exact .copy _
  · exact absurd ((List.getElem?_set_ne hij).trans hc) hne

/-- `s.ComesTo i s'` says that steps lead from `s` to `s'` of which none relocates the cursor number
`i`. Other cursors may be asked anything. -/
inductive ComesTo (i : Nat) (s : Session) : Session → Prop where
  | refl : ComesTo i s s
  | step {ρ : Type} {s' s'' : Session} {j : Nat} {what : Step (Parser ρ)} {reply : Reply ρ}
      (h : ComesTo i s s') (hstep : s'.step j what = some (reply, s''))
      (hstay : j = i → ¬ what.Relocates) : ComesTo i s s''

theorem ComesTo.reachable (h : s.ComesTo i s') (hs : Reachable s) : Reachable s' := by
  induction h with
  | refl => exact hs
  | step _ hstep _ ih => exact .step ih hstep

theorem ComesTo.cursor_eq (h : s.ComesTo i s') (hs : Reachable s) (hc : s.cursors[i]? = some c)
    (hrest : c.rest = []) : s'.cursors[i]? = some c := by
  induction h with
  | refl => exact hc
  | step h hstep hstay ih =>
    refine Decidable.byContradiction fun hne ↦ ?_
    obtain ⟨hij, hrelocates⟩ := relocates_of_step (h.reachable hs).inBounds ih hrest hstep hne
    exact hstay hij hrelocates

/-- **Stranded cursors are absorbing.** In every session that can be reached, a cursor is stranded
exactly if `isEmpty` and `remaining` disagree about it. Until it is relocated it stays where it is,
whatever else is asked in the session: it shows nothing, it answers every step that would move it
forward, and the session is not changed by the answer. -/
theorem Reachable.stranded_absorbing (hs : Reachable s) :
    (∀ c ∈ s.cursors, c.isEmpty ≠ (c.remaining == "") ↔ ¬ c.OnBoundary) ∧
    ∀ i c, s.cursors[i]? = some c → ¬ c.OnBoundary → ∀ s', s.ComesTo i s' →
      s'.cursors[i]? = some c ∧ c.Stranded ∧
      (∀ {ρ : Type} (what : Step (Parser ρ)), what.Walks →
        ∃ reply, s'.step i what = some (reply, s')) ∧
      ∀ {ρ : Type} {j : Nat} {what : Step (Parser ρ)} {reply : Reply ρ} {s'' : Session},
        s'.step j what = some (reply, s'') → s''.cursors[i]? ≠ some c →
        j = i ∧ what.Relocates := by
  refine ⟨fun c hc ↦ (hs.inBounds c hc).isEmpty_ne_iff, fun i c hc hb s' hs' ↦ ?_⟩
  have hrest : c.rest = [] := Cursor.rest_eq_nil_of_not_onBoundary hb
  have hc' : s'.cursors[i]? = some c := hs'.cursor_eq hs hc hrest
  have hstranded : c.Stranded := (hs.inBounds c (List.mem_of_getElem? hc)).stranded hb
  refine ⟨hc', hstranded, fun what hwhat ↦ exists_step_eq_self hc' hstranded hwhat, ?_⟩
  intro ρ j what reply s'' hstep hne
  exact relocates_of_step (hs'.reachable hs).inBounds hc' hrest hstep hne

/-- A checkpoint behind a character of one byte, restored to a cursor before one of two bytes. A run
and a step do not lead the cursor out of that character. -/
theorem Reachable.stranded_absorbing_restored :
    Reachable ⟨[⟨"éa", 1⟩, ⟨"xy", 1⟩], [("mark", ⟨1⟩)]⟩ ∧ ¬ (⟨"éa", 1⟩ : Cursor).OnBoundary ∧
      (⟨"éa", 1⟩ : Cursor).isEmpty ≠ ((⟨"éa", 1⟩ : Cursor).remaining == "") ∧
      ComesTo 0 ⟨[⟨"éa", 1⟩, ⟨"xy", 1⟩], [("mark", ⟨1⟩)]⟩
        ⟨[⟨"éa", 1⟩, ⟨"xy", 2⟩], [("mark", ⟨1⟩)]⟩ ∧
      (⟨"éa", 1⟩ : Cursor).Stranded ∧
      ∃ reply, Session.step ⟨[⟨"éa", 1⟩, ⟨"xy", 2⟩], [("mark", ⟨1⟩)]⟩ 0
        (.run (.literal "") : Step (Parser Unit)) =
          some (reply, ⟨[⟨"éa", 1⟩, ⟨"xy", 2⟩], [("mark", ⟨1⟩)]⟩) := by
  have hadvance : Session.step ⟨[⟨"éa", 0⟩, ⟨"xy", 0⟩], []⟩ 1 (.advance 1 : Step (Parser Char)) =
      some (.done, ⟨[⟨"éa", 0⟩, ⟨"xy", 1⟩], []⟩) := rfl
  have hsave : Session.step ⟨[⟨"éa", 0⟩, ⟨"xy", 1⟩], []⟩ 1 (.save "mark" : Step (Parser Char)) =
      some (.saved 1, ⟨[⟨"éa", 0⟩, ⟨"xy", 1⟩], [("mark", ⟨1⟩)]⟩) := rfl
  have hrestore : Session.step ⟨[⟨"éa", 0⟩, ⟨"xy", 1⟩], [("mark", ⟨1⟩)]⟩ 0
      (.restore "mark" : Step (Parser Char)) =
      some (.done, ⟨[⟨"éa", 1⟩, ⟨"xy", 1⟩], [("mark", ⟨1⟩)]⟩) := rfl
  have hstay : Session.step ⟨[⟨"éa", 1⟩, ⟨"xy", 1⟩], [("mark", ⟨1⟩)]⟩ 0
      (.advance 5 : Step (Parser Char)) =
      some (.done, ⟨[⟨"éa", 1⟩, ⟨"xy", 1⟩], [("mark", ⟨1⟩)]⟩) := rfl
  have hother : Session.step ⟨[⟨"éa", 1⟩, ⟨"xy", 1⟩], [("mark", ⟨1⟩)]⟩ 1 (.run .anyChar) =
      some (.output (some 'y'), ⟨[⟨"éa", 1⟩, ⟨"xy", 2⟩], [("mark", ⟨1⟩)]⟩) := rfl
  have hreach : Reachable ⟨[⟨"éa", 1⟩, ⟨"xy", 1⟩], [("mark", ⟨1⟩)]⟩ :=
    .step (.step (.step (.start ["éa", "xy"]) hadvance) hsave) hrestore
  have hboundary : ¬ (⟨"éa", 1⟩ : Cursor).OnBoundary := Text.cut_eq_none_iff.mp (by decide +kernel)
  have hcomes : ComesTo 0 ⟨[⟨"éa", 1⟩, ⟨"xy", 1⟩], [("mark", ⟨1⟩)]⟩
      ⟨[⟨"éa", 1⟩, ⟨"xy", 2⟩], [("mark", ⟨1⟩)]⟩ :=
    .step (.step .refl hstay fun _ ↦ nofun) hother fun h ↦ nomatch h
  obtain ⟨hdiffer, habsorbing⟩ := hreach.stranded_absorbing
  obtain ⟨-, hstranded, hanswers, -⟩ := habsorbing 0 _ rfl hboundary _ hcomes
  exact ⟨hreach, hboundary, (hdiffer _ List.mem_cons_self).mpr hboundary, hcomes, hstranded,
    hanswers _ (.run _)⟩

end Session

end PrefixParsing
