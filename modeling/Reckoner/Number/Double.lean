/-
  Reckoner/Number/Double.lean
  ===========================
  **Doubles.**  Two questions that the calculator asks about a double: whether it
  is a zero, of either sign, and whether it lies in the safe range.

  Up to 2^53 - 1 in magnitude every integer is a double and its neighbours are
  doubles too, so a sum, difference or product of integers that stays inside is
  exact.  The calculator refuses every number outside.
-/
import Reckoner.Number.Decimal

namespace Reckoner.Number

/-- Whether a double is a zero of either sign. -/
def isZero (x : Float) : Bool :=
  match x.toModel.unpack with
  | .zero _ => true
  | _ => false

/-! ### The safe range -/

/-- The largest integer that is safe. -/
def safeInteger : Nat := Nat.pow 2 53 - 1

def safeLimit : Float :=
  (Decimal.mk safeInteger 0).toFloat

/-- Whether a double lies in the safe range.  What is tested has been rounded
    already; a NaN is in no range. -/
def inSafeRange (x : Float) : Bool :=
  decide (-safeLimit ≤ x) && decide (x ≤ safeLimit)

/-- Whether an integer lies in the safe range, with nothing rounded. -/
def intInSafeRange (i : Int) : Bool :=
  i.natAbs ≤ safeInteger

end Reckoner.Number
