/-
  Reckoner/Operator.lean
  ======================
  **The four operators.**  `apply` is bare arithmetic on doubles, where only a
  zero divisor fails.  `combine` is what a calculation does: it refuses a result
  that is infinite or no number, and one outside the safe range, so every number
  that a calculation goes on with is finite and safe.
-/
import Reckoner.Failure
import Reckoner.Number.Double

namespace Reckoner

inductive Operator
  | add
  | subtract
  | multiply
  | divide
deriving DecidableEq, Repr

namespace Operator

def symbol : Operator → String
  | add => "+"
  | subtract => "-"
  | multiply => "*"
  | divide => "/"

def ofText? (text : String) : Option Operator :=
  [add, subtract, multiply, divide].find? fun operator => operator.symbol == text

/-- How tightly an operator binds: the higher, the tighter.  Operators of one
    precedence group from the left. -/
def precedence : Operator → Nat
  | add => 1
  | subtract => 1
  | multiply => 2
  | divide => 2

/-- The rounded result on two doubles, the left operand first. -/
def apply (operator : Operator) (a b : Float) : Outcome Float :=
  match operator with
  | add => .ok (a + b)
  | subtract => .ok (a - b)
  | multiply => .ok (a * b)
  | divide => if Number.isZero b then fail .divisionByZero else .ok (a / b)

/-- A computed number, if it is finite and safe. -/
def checkResult (x : Float) : Outcome Float :=
  if !x.isFinite then fail .calculationError
  else if !Number.inSafeRange x then fail .numberOutOfRange
  else .ok x

/-- One step of a calculation: the result of an operator, checked. -/
def combine (operator : Operator) (a b : Float) : Outcome Float := do
  checkResult (← operator.apply a b)

end Operator

def applyNamed (name : String) (a b : Float) : Outcome Float :=
  match Operator.ofText? name with
  | some operator => operator.apply a b
  | none => .error (.invalidToken name)

end Reckoner
