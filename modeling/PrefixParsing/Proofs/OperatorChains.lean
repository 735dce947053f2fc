import PrefixParsing.Proofs.Loops

/-!
# Operator chains

Parsers can be joined by the operators `>>>` and `<<<`, from the left: the output of the side that
the operator points to is kept. A chain of several operators runs its operands as a loop does,
whatever the operators are. They only decide which output comes out. It is that of the operand
behind the last `>>>`, since each `>>>` drops all outputs before it, and each `<<<` drops the one
behind it.

## Operands and operators

The operands may have outputs of different types. `Operands α ω` is what stands behind a first
operand with outputs in `α`, and `ω` is the type of the output that is kept in the end. A chain is
described by two lists, its operators and its parsers, and every pair of such lists has a chain.

## The operand that is kept

`KeptAt` says of a position, by the operators alone, that the operand there is kept. The induction
goes from the first operator on, with any first operand: behind `>>>` the chain starts anew with the
operand there, and behind `<<<` it goes on as if that operand were absent.
-/

namespace PrefixParsing

/-! ## The operators of a chain -/

/-- The operators that keep the output of one side. -/
inductive Shift where
  /-- The output of the right side is kept. -/
  | right
  /-- The output of the left side is kept. -/
  | left
deriving DecidableEq

/-- The operand at position `i` of a chain, counted from zero, is the one behind the last operator
that points to the right, or the first one if there is no such operator. -/
structure KeptAt (operators : List Shift) (i : ℕ) : Prop where
  /-- The operator in front of the operand points to it. -/
  right_before : ∀ j, i = j + 1 → operators[j]? = some .right
  /-- No operator behind the operand points away from it. -/
  left_behind : ∀ s ∈ operators.drop i, s = .left

namespace KeptAt

variable {operators : List Shift} {i j : ℕ}

theorem eq_zero_of_nil (h : KeptAt [] i) : i = 0 := by
  cases i with
  | zero => rfl
  | succ j => exact nomatch h.right_before j rfl

theorem not_right_cons_zero : ¬ KeptAt (.right :: operators) 0 := by
  intro h
  exact nomatch h.left_behind .right List.mem_cons_self

/-- Behind `>>>` the chain starts anew. -/
theorem right_cons_succ_iff : KeptAt (.right :: operators) (i + 1) ↔ KeptAt operators i := by
  constructor
  · intro h
    refine ⟨?_, h.left_behind⟩
    rintro j rfl
    exact h.right_before (j + 1) rfl
  · intro h
    refine ⟨?_, h.left_behind⟩
    rintro j ⟨⟩
    cases i with
    | zero => rfl
    | succ j => exact h.right_before j rfl

theorem left_cons_zero_iff : KeptAt (.left :: operators) 0 ↔ KeptAt operators 0 := by
  constructor
  · intro h
    exact ⟨nofun, fun s hs ↦ h.left_behind s (List.mem_cons_of_mem _ hs)⟩
  · intro h
    exact ⟨nofun, List.forall_mem_cons.mpr ⟨rfl, h.left_behind⟩⟩

theorem not_left_cons_one : ¬ KeptAt (.left :: operators) 1 := by
  intro h
  exact nomatch h.right_before 0 rfl

/-- Behind `<<<` the chain goes on as if the operand there were absent. -/
theorem left_cons_succ_iff : KeptAt (.left :: operators) (i + 2) ↔ KeptAt operators (i + 1) := by
  constructor
  · intro h
    refine ⟨?_, h.left_behind⟩
    rintro j ⟨⟩
    exact h.right_before (i + 1) rfl
  · intro h
    refine ⟨?_, h.left_behind⟩
    rintro j ⟨⟩
    exact h.right_before i rfl

theorem exists_keptAt (operators : List Shift) : ∃ i, KeptAt operators i := by
  induction operators with
  | nil => exact ⟨0, nofun, nofun⟩
  | cons s operators ih =>
    obtain ⟨i, h⟩ := ih
    cases s with
    | right => exact ⟨i + 1, right_cons_succ_iff.mpr h⟩
    | left =>
      cases i with
      | zero => exact ⟨0, left_cons_zero_iff.mpr h⟩
      | succ i => exact ⟨i + 2, left_cons_succ_iff.mpr h⟩

theorem le (h : KeptAt operators i) (h' : KeptAt operators j) : j ≤ i := by
  cases j with
  | zero => exact Nat.zero_le i
  | succ k =>
    -- the operator in front of the one would stand behind the other
    by_contra hlt
    have hget : (operators.drop i)[k - i]? = some .right := by
      rw [List.getElem?_drop, Nat.add_sub_cancel' (by omega)]
      exact h'.right_before k rfl
    exact nomatch h.left_behind .right (List.mem_of_getElem? hget)

theorem unique (h : KeptAt operators i) (h' : KeptAt operators j) : j = i :=
  Nat.le_antisymm (h.le h') (h'.le h)

end KeptAt

/-! ## Chains -/

/-- Operands behind a first one with outputs in `α`, each with the operator in front of it. -/
inductive Operands : Type → Type → Type 1 where
  | done {α : Type} : Operands α α
  | right {α β ω : Type} (q : Parser β) (rest : Operands β ω) : Operands α ω
  | left {α β ω : Type} (q : Parser β) (rest : Operands α ω) : Operands α ω

namespace Operands

open AnyParser

variable {α ω : Type}

def operators : {α ω : Type} → Operands α ω → List Shift
  | _, _, done => []
  | _, _, right _ rest => .right :: rest.operators
  | _, _, left _ rest => .left :: rest.operators

def parsers : {α ω : Type} → Operands α ω → List AnyParser
  | _, _, done => []
  | _, _, right q rest => ⟨q⟩ :: rest.parsers
  | _, _, left q rest => ⟨q⟩ :: rest.parsers

/-- The operands joined to a first one, from the left, by the two given operations. -/
def join (toRight : ∀ {α β : Type}, Parser α → Parser β → Parser β)
    (toLeft : ∀ {α β : Type}, Parser α → Parser β → Parser α) :
    {α ω : Type} → Operands α ω → Parser α → Parser ω
  | _, _, done, p => p
  | _, _, right q rest, p => rest.join toRight toLeft (toRight p q)
  | _, _, left q rest, p => rest.join toRight toLeft (toLeft p q)

/-- The chain with operators. -/
def chain (operands : Operands α ω) (p : Parser α) : Parser ω :=
  operands.join (fun p q ↦ p >>> q) (fun p q ↦ p <<< q) p

/-- The chain with the combinators that the operators stand for. -/
def openChain (operands : Operands α ω) (p : Parser α) : Parser ω :=
  operands.join Parser.keepRight Parser.keepLeft p

/-- The output that is kept of that of the first operand and those of the others. -/
def kept : {α ω : Type} → (operands : Operands α ω) → α → Outputs operands.parsers → ω
  | _, _, done, a, _ => a
  | _, _, right _ rest, _, outputs => rest.kept outputs.1 outputs.2
  | _, _, left _ rest, a, outputs => rest.kept a outputs.2

/-- Behind the first operand, the others run in order. -/
theorem run_join (toRight : ∀ {α β : Type}, Parser α → Parser β → Parser β)
    (toLeft : ∀ {α β : Type}, Parser α → Parser β → Parser α)
    (hright : ∀ {α β : Type} (p : Parser α) (q : Parser β), (toRight p q).run = (p.keepRight q).run)
    (hleft : ∀ {α β : Type} (p : Parser α) (q : Parser β), (toLeft p q).run = (p.keepLeft q).run)
    {α ω : Type} (operands : Operands α ω) (p : Parser α) :
    (operands.join toRight toLeft p).run =
      p.run >>= fun a ↦ operands.kept a <$> inOrder operands.parsers := by
  induction operands with
  | done => exact (bind_pure p.run).symm
  | right q rest ih =>
    have hrest := ih (toRight p q)
    have hjoined : (toRight p q).run = p.run >>= fun _ ↦ q.run >>= fun b ↦ pure b := by
      rw [hright, bind_pure, Parser.run]
    exact hrest.trans (bind_map_inOrder hjoined rest.kept)
  | left q rest ih =>
    have hrest := ih (toLeft p q)
    exact hrest.trans (bind_map_inOrder (hleft p q) rest.kept)

theorem run_chain_eq (operands : Operands α ω) (p : Parser α) :
    (operands.chain p).run = p.run >>= fun a ↦ operands.kept a <$> inOrder operands.parsers :=
  run_join (fun p q ↦ p >>> q) (fun p q ↦ p <<< q) (fun _ _ ↦ rfl) (fun _ _ ↦ rfl) operands p

theorem run_openChain (operands : Operands α ω) (p : Parser α) :
    (operands.openChain p).run = (operands.chain p).run := by
  rw [run_chain_eq]
  exact run_join Parser.keepRight Parser.keepLeft (fun _ _ ↦ rfl) (fun _ _ ↦ rfl) operands p

/-- The chain runs all its operands in order. -/
theorem run_chain (operands : Operands α ω) (p : Parser α) :
    (operands.chain p).run =
      (fun outputs ↦ operands.kept outputs.1 outputs.2) <$> inOrder (⟨p⟩ :: operands.parsers) := by
  simp only [run_chain_eq, inOrder_cons, map_bind, Functor.map_map]

/-- The output that is kept is that of the operand at the position that the operators tell. -/
theorem exists_parser_of_keptAt {α ω : Type} {operands : Operands α ω} {i : ℕ}
    (h : KeptAt operands.operators i) (p : Parser α) :
    ∃ q : Parser ω, (⟨p⟩ :: operands.parsers)[i]? = some ⟨q⟩ ∧
      ∀ outputs : Outputs (⟨p⟩ :: operands.parsers),
        (components (⟨p⟩ :: operands.parsers) outputs)[i]? =
          some ⟨⟨q⟩, operands.kept outputs.1 outputs.2⟩ := by
  induction operands generalizing i with
  | done =>
    obtain rfl := h.eq_zero_of_nil
    exact ⟨p, rfl, fun _ ↦ rfl⟩
  | right q rest ih =>
    rcases i with _ | i
    · exact absurd h KeptAt.not_right_cons_zero
    · obtain ⟨r, hr, hkept⟩ := ih (KeptAt.right_cons_succ_iff.mp h) q
      exact ⟨r, hr, fun outputs ↦ hkept outputs.2⟩
  | left q rest ih =>
    rcases i with _ | _ | i
    · obtain ⟨r, hr, hkept⟩ := ih (KeptAt.left_cons_zero_iff.mp h) p
      exact ⟨r, hr, fun outputs ↦ hkept (outputs.1, outputs.2.2)⟩
    · exact absurd h KeptAt.not_left_cons_one
    · obtain ⟨r, hr, hkept⟩ := ih (KeptAt.left_cons_succ_iff.mp h) p
      exact ⟨r, hr, fun outputs ↦ hkept (outputs.1, outputs.2.2)⟩

theorem exists_of_list (α : Type) (links : List (Shift × AnyParser)) :
    ∃ (ω : Type) (operands : Operands α ω),
      operands.operators = links.map Prod.fst ∧ operands.parsers = links.map Prod.snd := by
  induction links generalizing α with
  | nil => exact ⟨α, done, rfl, rfl⟩
  | cons link links ih =>
    obtain ⟨s, q⟩ := link
    cases s with
    | right =>
      obtain ⟨ω, rest, hoperators, hparsers⟩ := ih q.Output
      exact ⟨ω, right q.parser rest, congrArg _ hoperators, congrArg _ hparsers⟩
    | left =>
      obtain ⟨ω, rest, hoperators, hparsers⟩ := ih α
      exact ⟨ω, left q.parser rest, congrArg _ hoperators, congrArg _ hparsers⟩

/-- **Operator chains.** Whatever the operators are, a chain runs its operands as a loop does, up to
the first one that fails: the cursor and the events are those of the loop, and it succeeds exactly
if all operands do. Its output is then that of the operand behind the last `>>>`, or of the first
one if there is none. With the combinators instead of the operators, the chain runs alike. -/
theorem run_chain_eq_loop (place : Cursor) :
    (∀ operators, ∃ i, KeptAt operators i ∧ ∀ j, KeptAt operators j → j = i) ∧
    (∀ (α : Type) (links : List (Shift × AnyParser)), ∃ (ω : Type) (operands : Operands α ω),
      operands.operators = links.map Prod.fst ∧ operands.parsers = links.map Prod.snd) ∧
    ∀ {α ω : Type} (p : Parser α) (operands : Operands α ω),
      let chain := (operands.chain p).run place
      let all := loop (⟨p⟩ :: operands.parsers) place
      chain.cursor = all.cursor ∧ chain.events = all.events ∧
      ((∃ a, chain.output = some a) ↔ ∃ ks, all.outputs = some ks) ∧
      (∀ i, KeptAt operands.operators i →
        ∃ q : Parser ω, (⟨p⟩ :: operands.parsers)[i]? = some ⟨q⟩ ∧
          ∀ a ks, chain.output = some a → all.outputs = some ks → ks[i]? = some ⟨⟨q⟩, a⟩) ∧
      (operands.openChain p).run place = chain := by
  refine ⟨?_, exists_of_list, ?_⟩
  · intro operators
    obtain ⟨i, hi⟩ := KeptAt.exists_keptAt operators
    exact ⟨i, hi, fun j hj ↦ hi.unique hj⟩
  · intro α ω p operands
    dsimp only
    rw [run_openChain, run_chain, Scan.map_apply, loop_eq_listed_inOrder]
    refine ⟨rfl, rfl, ?_, ?_, rfl⟩
    · rw [Outcome.listed, ← Option.isSome_iff_exists, ← Option.isSome_iff_exists,
        Option.isSome_map, Option.isSome_map]
    · intro i hi
      obtain ⟨q, hq, hkept⟩ := exists_parser_of_keptAt hi p
      refine ⟨q, hq, ?_⟩
      intro a ks ha hks
      obtain ⟨outputs, houtputs, rfl⟩ := Option.map_eq_some_iff.mp ha
      obtain ⟨outputs', houtputs', rfl⟩ := Option.map_eq_some_iff.mp hks
      obtain rfl := Option.some.inj (houtputs.symm.trans houtputs')
      exact hkept outputs

/-- Behind a mark, `>>>` a number `<<<` a mark `>>>` a character `<<<` a mark. The last `>>>` points
to the character. -/
def letterBehindNumber : Operands Unit Char :=
  .right .integer (.left (.literal ";") (.right .anyChar (.left (.literal "!") .done)))

theorem run_chain_eq_loop_letter :
    KeptAt letterBehindNumber.operators 3 ∧
      ((letterBehindNumber.chain (.literal "#")).run ⟨"#7;é!", 0⟩).output = some 'é' ∧
      ((letterBehindNumber.openChain (.literal "#")).run ⟨"#7;é!", 0⟩).output = some 'é' ∧
      ∃ ks, (loop (⟨.literal "#"⟩ :: letterBehindNumber.parsers) ⟨"#7;é!", 0⟩).outputs = some ks ∧
        ks[3]? = some ⟨⟨.anyChar⟩, 'é'⟩ := by
  have hkept : KeptAt letterBehindNumber.operators 3 := by
    refine ⟨?_, List.forall_mem_singleton.mpr rfl⟩
    rintro j ⟨⟩
    rfl
  have houtput :
      ((letterBehindNumber.chain (.literal "#")).run ⟨"#7;é!", 0⟩).output = some 'é' := by
    decide +kernel
  obtain ⟨-, -, hchain⟩ := run_chain_eq_loop ⟨"#7;é!", 0⟩
  obtain ⟨-, -, hall, hvalue, hopen⟩ := hchain (.literal "#") letterBehindNumber
  obtain ⟨ks, hks⟩ := hall.mp ⟨'é', houtput⟩
  obtain ⟨q, hq, hat⟩ := hvalue 3 hkept
  cases hq
  exact ⟨hkept, houtput, by rw [hopen, houtput], ks, hks, hat _ _ houtput hks⟩

end Operands

end PrefixParsing
