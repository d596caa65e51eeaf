import Mathlib.Algebra.Order.Ring.Rat
import Mathlib.Data.Rat.Floor

/-!
# The operations of the doubles

Scores are of any type with the operations that a program uses on its doubles. No law of
them is assumed, so what is proved over this class holds whatever the rounding, and also
where a comparison fails for both orders. The rational numbers are one such type.
-/

namespace AimeeMemory.Lib

/-- The operations of the doubles. -/
class ScoreArith (R : Type*) extends Add R, Sub R, Mul R, Div R, LT R, LE R, NatCast R, IntCast R, OfScientific R where
  decLt : ∀ a b : R, Decidable (a < b)
  decLe : ∀ a b : R, Decidable (a ≤ b)
  /-- The conversion to `int`. -/
  trunc : R → ℤ

variable {R : Type*} [ScoreArith R]

instance ScoreArith.decidableLt (a b : R) : Decidable (a < b) := ScoreArith.decLt a b

instance ScoreArith.decidableLe (a b : R) : Decidable (a ≤ b) := ScoreArith.decLe a b

def fabs (x : R) : R := if x < 0.0 then 0.0 - x else x

instance : ScoreArith ℚ where
  decLt := inferInstance
  decLe := inferInstance
  trunc q := if q < 0 then -⌊-q⌋ else ⌊q⌋

end AimeeMemory.Lib
