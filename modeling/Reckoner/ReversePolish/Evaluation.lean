/-
  Reckoner/ReversePolish/Evaluation.lean
  ======================================
  **Evaluating reverse Polish text.**  The items of the text are read in order
  over a stack of numbers.  An operand goes onto the stack; an operator takes the
  two topmost numbers, the upper one as its right operand, and puts its result
  back.  At the end exactly one number must be left.

  An item is told by its text alone: the four signs are operators, and any other
  item that reads as a numeral is an operand, whose size is then checked.
-/
import Reckoner.Operand
import Reckoner.Operator
import Reckoner.Text.Blank

namespace Reckoner.ReversePolish

open Reckoner.Number Reckoner.Text

/-- What an operator leaves on the stack, whose top comes first. -/
def reduce (operator : Operator) : List Float → Outcome (List Float)
  | b :: a :: below => (· :: below) <$> operator.combine a b
  | _ => fail .missingOperand

def step (stack : List Float) (item : String) : Outcome (List Float) :=
  match Operator.ofText? item with
  | some operator => reduce operator stack
  | none =>
    if (readFloat? item).isSome then (· :: stack) <$> checkOperand item
    else .error (.invalidToken item)

def run (stack : List Float) (items : List String) : Outcome (List Float) :=
  items.foldlM step stack

/-- The number that a row of items leaves alone on the stack. -/
def evaluateItems (items : List String) : Outcome Float := do
  match ← run [] items with
  | [value] => .ok value
  | _ => fail .invalidExpression

def evaluate (text : String) : Outcome Float :=
  evaluateItems (words text)

end Reckoner.ReversePolish
