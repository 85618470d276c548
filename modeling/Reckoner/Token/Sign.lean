/-
  Reckoner/Token/Sign.lean
  ========================
  **Signs of literals.**  A minus is a sign where an operand is expected: at the
  start, after an operator and after `(`.  If a number follows, the two become
  one number token, so all that is left are operators between operands.  A sign
  that no number follows, as in `-(2)`, stays an operator.

  `fuseFrom` carries one bit along, whether an operand is expected.  After a
  fused pair none is, for the pair ends in a number.
-/
import Reckoner.Operand
import Reckoner.Token

namespace Reckoner

namespace Token

def expectsOperand (t : Token) : Bool :=
  t.isOperator || t.kind == .leftParen

def isMinus (t : Token) : Bool :=
  t.isOperator && t.text == "-"

def negated (t : Token) : Token :=
  ⟨.number, "-" ++ t.text⟩

end Token

/-- Fuses the signs of a list of tokens; the flag tells whether an operand is
    expected at its start. -/
def fuseFrom : Bool → List Token → Outcome (List Token)
  | _, [] => .ok []
  | _, [t] => .ok [t]
  | expected, t :: next :: rest =>
    if expected && t.isMinus && next.isNumber then
      if isFiniteNumeral next.negated.text then
        (next.negated :: ·) <$> fuseFrom false rest
      else
        fail .invalidNumber
    else
      (t :: ·) <$> fuseFrom t.expectsOperand (next :: rest)

/-- Every minus that is the sign of a number, fused with that number. -/
def fuseSigns (tokens : List Token) : Outcome (List Token) :=
  fuseFrom true tokens

end Reckoner
