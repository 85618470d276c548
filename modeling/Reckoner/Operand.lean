/-
  Reckoner/Operand.lean
  =====================
  **Operands.**  A text is an operand if it denotes a finite double in the safe
  range.  `parseNumber` tells the two ways to fall short apart: a text that is no
  finite number, and a number outside the range.  Inside an expression both are
  the same failure (`checkOperand`), because every literal there is a numeral and
  only its size can be wrong.
-/
import Reckoner.Failure
import Reckoner.Number.Numeral
import Reckoner.Number.Double

namespace Reckoner

open Reckoner.Number

/-- A double, if it is finite and in the safe range. -/
def checkNumber (x : Float) : Outcome Float :=
  if !x.isFinite then fail .invalidNumber
  else if !inSafeRange x then fail .numberOutOfRange
  else .ok x

/-- The double that a text denotes, if it is finite and in the safe range. -/
def parseNumber (text : String) : Outcome Float :=
  match readFloat? text with
  | none => fail .invalidNumber
  | some x => checkNumber x

/-- Whether a text denotes a finite double, in whatever range. -/
def isFiniteNumeral (text : String) : Bool :=
  (readFloat? text).any Float.isFinite

/-- The value of an operand; whatever is wrong with it counts as out of range. -/
def checkOperand (text : String) : Outcome Float :=
  match parseNumber text with
  | .ok x => .ok x
  | .error _ => fail .numberOutOfRange

end Reckoner
