import PrefixParsing.Parser

/-!
# Induction over what parsers do

A parser has many constructors, but what they do is made of few things: the four readings, success
and failure without a move, sequence, and going back. A property of scans that these respect is a
property of every parser. `run_induction` says so, and it is how a law for all parsers is proved
without a case for each constructor.
-/

namespace PrefixParsing.Parser

/-- A property of scans that the primitives have, and that sequence and going back keep, holds of
what any parser does. -/
theorem run_induction {motive : ∀ {α : Type}, Scan α → Prop}
    (hinteger : motive (Scan.read Reading.integer))
    (hfloat : motive (Scan.read Reading.float))
    (hanyChar : motive (Scan.read Reading.anyChar))
    (hliteral : ∀ expected, motive (Scan.read (Reading.literal expected)))
    (hpure : ∀ {α : Type} (a : α), motive (pure a : Scan α))
    (hfail : ∀ {α : Type}, motive (Scan.fail : Scan α))
    (hbind : ∀ {α β : Type} (p : Scan α) (k : α → Scan β), motive p → (∀ a, motive (k a)) →
      motive (p >>= k))
    (hattempt : ∀ {α : Type} (p : Scan α), motive p → motive p.attempt)
    {α : Type} (p : Parser α) : motive p.run := by
  induction p with
  | integer => exact hinteger
  | float => exact hfloat
  | anyChar => exact hanyChar
  | literal expected => exact hliteral expected
  | always value => exact hpure value
  | never => exact hfail
  | map f p ih => exact hbind _ _ ih fun _ ↦ hpure _
  | flatMap p next ihp ihnext => exact hbind _ _ ihp ihnext
  | zip p q ihp ihq => exact hbind _ _ ihp fun _ ↦ hbind _ _ ihq fun _ ↦ hpure _
  | zip3 p q r ihp ihq ihr =>
    exact hbind _ _ ihp fun _ ↦ hbind _ _ ihq fun _ ↦ hbind _ _ ihr fun _ ↦ hpure _
  | zip4 p q r s ihp ihq ihr ihs =>
    exact hbind _ _ ihp fun _ ↦ hbind _ _ ihq fun _ ↦ hbind _ _ ihr fun _ ↦
      hbind _ _ ihs fun _ ↦ hpure _
  | zip5 p q r s t ihp ihq ihr ihs iht =>
    exact hbind _ _ ihp fun _ ↦ hbind _ _ ihq fun _ ↦ hbind _ _ ihr fun _ ↦
      hbind _ _ ihs fun _ ↦ hbind _ _ iht fun _ ↦ hpure _
  | zip6 p q r s t u ihp ihq ihr ihs iht ihu =>
    exact hbind _ _ ihp fun _ ↦ hbind _ _ ihq fun _ ↦ hbind _ _ ihr fun _ ↦
      hbind _ _ ihs fun _ ↦ hbind _ _ iht fun _ ↦ hbind _ _ ihu fun _ ↦ hpure _
  | zip7 p q r s t u v ihp ihq ihr ihs iht ihu ihv =>
    exact hbind _ _ ihp fun _ ↦ hbind _ _ ihq fun _ ↦ hbind _ _ ihr fun _ ↦
      hbind _ _ ihs fun _ ↦ hbind _ _ iht fun _ ↦ hbind _ _ ihu fun _ ↦
        hbind _ _ ihv fun _ ↦ hpure _
  | keepLeft p q ihp ihq => exact hbind _ _ ihp fun _ ↦ hbind _ _ ihq fun _ ↦ hpure _
  | keepRight p q ihp ihq => exact hbind _ _ ihp fun _ ↦ ihq
  | skipBoth p q ihp ihq => exact hbind _ _ ihp fun _ ↦ hbind _ _ ihq fun _ ↦ hpure _
  | apply p q ihp ihq => exact hbind _ _ ihp fun _ ↦ hbind _ _ ihq fun _ ↦ hpure _
  | attempt p ih => exact hattempt _ ih
  | sealed p ih => exact ih

end PrefixParsing.Parser
