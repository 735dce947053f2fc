import PrefixParsing.Proofs.Loops

/-!
# Applicative chains

A structured value can be parsed one field at a time. The chain starts with a function of several
arguments, given one at a time, and goes on step by step: a step either parses the next argument and
applies the function to it, or parses a separator whose output is dropped. What comes out is the
function of all the arguments.

## The types of the arguments

A step that applies takes one argument off the function, so the types of the chain change from step
to step. `ApplySteps αs` is a list of steps that apply a function to arguments of the types `αs`, no
more and no fewer, with separators anywhere between them.

## Half-applied functions

In the middle of a chain, the output so far is a function that still waits for arguments. So the
induction over the steps is on chains that start with any parser of such a function, and not only
with one that is always successful. Each step hands the function on to the rest of the chain.
-/

namespace PrefixParsing

/-! ## Functions of several arguments -/

/-- The functions that take arguments of the types `αs` one at a time. -/
abbrev Curried : List Type → Type → Type
  | [], ρ => ρ
  | α :: αs, ρ => α → Curried αs ρ

/-- One argument of each type. -/
abbrev Arguments : List Type → Type
  | [] => Unit
  | α :: αs => α × Arguments αs

/-- The value of a function at all its arguments. -/
def applyAll {ρ : Type} : {αs : List Type} → Curried αs ρ → Arguments αs → ρ
  | [], value, _ => value
  | _ :: _, f, arguments => applyAll (f arguments.1) arguments.2

/-! ## Steps -/

/-- Steps that apply a function to arguments of the types `αs`. -/
inductive ApplySteps : List Type → Type 1 where
  | done : ApplySteps []
  /-- The function is applied to the output of `p`. -/
  | apply {α : Type} {αs : List Type} (p : Parser α) (rest : ApplySteps αs) : ApplySteps (α :: αs)
  /-- The output of `q` is dropped. -/
  | skip {β : Type} {αs : List Type} (q : Parser β) (rest : ApplySteps αs) : ApplySteps αs

namespace ApplySteps

open AnyParser

variable {ρ : Type}

/-- The steps put behind the parser of a function, one after the other. -/
def chain : {αs : List Type} → ApplySteps αs → Parser (Curried αs ρ) → Parser ρ
  | _, done, value => value
  | _, apply p rest, function => rest.chain (function.apply p)
  | _, skip q rest, function => rest.chain (function.keepLeft q)

/-- The parsers of all steps. -/
def parsers : {αs : List Type} → ApplySteps αs → List AnyParser
  | _, done => []
  | _, apply p rest => ⟨p⟩ :: rest.parsers
  | _, skip q rest => ⟨q⟩ :: rest.parsers

/-- The outputs of the steps that apply. -/
def arguments : {αs : List Type} → (steps : ApplySteps αs) → Outputs steps.parsers → Arguments αs
  | _, done, _ => ()
  | _, apply _ rest, outputs => (outputs.1, rest.arguments outputs.2)
  | _, skip _ rest, outputs => rest.arguments outputs.2

theorem run_chain {αs : List Type} (steps : ApplySteps αs) (function : Parser (Curried αs ρ)) :
    (steps.chain function).run = function.run >>= fun f ↦
      (fun outputs ↦ applyAll f (steps.arguments outputs)) <$> inOrder steps.parsers := by
  induction steps with
  | done => simp only [chain, inOrder, applyAll, parsers, map_pure, bind_pure]
  | apply p rest ih =>
    have hrest := ih (function.apply p)
    exact hrest.trans (bind_map_inOrder rfl fun f outputs ↦ applyAll f (rest.arguments outputs))
  | skip q rest ih =>
    have hrest := ih (function.keepLeft q)
    have hfirst : (function.keepLeft q).run =
        function.run >>= fun f ↦ q.run >>= fun _ ↦ pure f := rfl
    exact hrest.trans
      (bind_map_inOrder hfirst fun f outputs ↦ applyAll f (rest.arguments outputs))

end ApplySteps

/-! ## Chains that start with a function -/

namespace Parser

open AnyParser

theorem run_chain_always {αs : List Type} {ρ : Type} (f : Curried αs ρ) (steps : ApplySteps αs) :
    (steps.chain (always f)).run =
      (fun outputs ↦ applyAll f (steps.arguments outputs)) <$> inOrder steps.parsers := by
  rw [steps.run_chain, run, pure_bind]

variable {α β γ σ : Type}

/-- Two arguments with a separator between them are a sequence of three. -/
theorem run_lift2_skip (f : α → β → γ) (p : Parser α) (separator : Parser σ) (q : Parser β) :
    ((((lift2 f).apply p).keepLeft separator).apply q).run =
      (map (fun outputs ↦ f outputs.1 outputs.2.2) (p.zip3 separator q)).run := by
  simp only [lift2, run, bind_assoc, pure_bind]

theorem run_lift2 (f : α → β → γ) (p : Parser α) (q : Parser β) :
    (((lift2 f).apply p).apply q).run = (zipWith f p q).run := by
  simp only [lift2, zipWith, run, bind_assoc, pure_bind]

/-- **Applicative chains.** A chain runs the parsers of its steps as a loop does, up to the first
one that fails: the cursor and the events are those of the loop. If all succeed, the output is the
function of the outputs of the steps that apply, in order. In particular, a function of two
arguments is applied to two of three outputs or to both of two. -/
theorem applicative_chains_run_as_loops (place : Cursor) :
    (∀ {αs : List Type} {ρ : Type} (f : Curried αs ρ) (steps : ApplySteps αs),
      let chain := (steps.chain (always f)).run place
      let outputs := (inOrder steps.parsers place).output
      chain.output = outputs.map (fun outputs ↦ applyAll f (steps.arguments outputs)) ∧
      loop steps.parsers place =
        ⟨outputs.map (components steps.parsers), chain.cursor, chain.events⟩) ∧
    (∀ {α β γ σ : Type} (f : α → β → γ) (p : Parser α) (separator : Parser σ) (q : Parser β),
      ((((lift2 f).apply p).keepLeft separator).apply q).run place =
        (map (fun outputs ↦ f outputs.1 outputs.2.2) (p.zip3 separator q)).run place) ∧
    ∀ {α β γ : Type} (f : α → β → γ) (p : Parser α) (q : Parser β),
      (((lift2 f).apply p).apply q).run place = (zipWith f p q).run place := by
  refine ⟨?_, ?_, ?_⟩
  · intro αs ρ f steps
    dsimp only
    rw [run_chain_always, Scan.map_apply, loop_eq_listed_inOrder]
    exact ⟨rfl, rfl⟩
  · intro α β γ σ f p separator q
    rw [run_lift2_skip]
  · intro α β γ f p q
    rw [run_lift2]

/-- The separator is the step that fails, and the cursor is behind the first argument. -/
example :
    let product : ApplySteps [Int, Int] :=
      .apply integer (.skip (literal "*") (.apply integer .done))
    (product.chain (always fun m n ↦ m * n)).parse "6*7" = some 42 ∧
      ((product.chain (always fun m n ↦ m * n)).run ⟨"6+7", 0⟩).cursor = ⟨"6+7", 1⟩ := by
  decide +kernel

end Parser

end PrefixParsing
