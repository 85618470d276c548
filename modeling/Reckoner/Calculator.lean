/-
  Reckoner/Calculator.lean
  ========================
  **The calculator.**  An expression is checked, cut into tokens, freed of its
  signs, brought into reverse Polish order and evaluated.  The order of the
  stages decides which of several faults a user hears of: the first stage that
  finds one.
-/
import Reckoner.Expression
import Reckoner.ReversePolish
import Reckoner.ReversePolish.Evaluation
import Reckoner.Token.Lexer
import Reckoner.Token.Sign

namespace Reckoner

/-- The reverse Polish text of an expression. -/
def toReversePolish (expression : String) : Outcome String := do
  checkAlphabet expression
  checkParentheses expression
  let tokens ← tokenize expression
  let signed ← fuseSigns tokens
  ReversePolish.textOf signed

/-- The value of an expression. -/
def calculate (expression : String) : Outcome Float := do
  ReversePolish.evaluate (← toReversePolish expression)

end Reckoner
