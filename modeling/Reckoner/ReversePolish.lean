/-
  Reckoner/ReversePolish.lean
  ===========================
  **Reverse Polish notation.**  In this notation an operator stands after its two
  operands, so neither precedence nor parentheses are needed.  `reorder` brings
  the tokens of an expression into that order with one stack, on which operators
  and open parentheses wait:

    * a number goes out at once;
    * an operator first lets out those above it on the stack, down to the nearest
      parenthesis, that bind at least as tightly, which makes operators of one
      precedence group from the left;
    * `)` lets out all down to its `(`, and neither is part of the result;
    * at the end all that still waits goes out, and no `(` may be among it.

  It checks operands, parentheses and kinds, and nothing else: whether every
  operator finds two operands is left to the evaluation.
-/
import Reckoner.Operand
import Reckoner.Token

namespace Reckoner.ReversePolish

/-- Whether the operator `top`, waiting on the stack, goes out before `t`. -/
def leavesFor (t top : Token) : Bool :=
  top.isOperator && t.precedence ≤ top.precedence

def insideGroup (t : Token) : Bool :=
  t.kind != .leftParen

/-- What waits on the stack at the end of an expression. -/
def drain (stack : List Token) : Outcome (List Token) :=
  if stack.all insideGroup then .ok stack else fail .mismatchedParentheses

/-- The numbers and operators of a list of tokens in reverse Polish order, where
    `stack` waits, its top first. -/
def reorder (stack : List Token) : List Token → Outcome (List Token)
  | [] => drain stack
  | t :: rest =>
    match t.kind with
    | .number => do
      let _ ← checkOperand t.text
      (t :: ·) <$> reorder stack rest
    | .operator =>
      (stack.takeWhile (leavesFor t) ++ ·) <$>
        reorder (t :: stack.dropWhile (leavesFor t)) rest
    | .leftParen => reorder (t :: stack) rest
    | .rightParen =>
      match stack.dropWhile insideGroup with
      | [] => fail .mismatchedParentheses
      | _ :: outside => (stack.takeWhile insideGroup ++ ·) <$> reorder outside rest
    | .other _ => .error (.invalidToken t.text)

/-- The tokens of an expression in reverse Polish order; at least one must be
    left once the parentheses are gone. -/
def ofTokens (tokens : List Token) : Outcome (List Token) := do
  match ← reorder [] tokens with
  | [] => fail .emptyExpression
  | ordered => .ok ordered

/-- The texts of tokens, set apart by single spaces. -/
def render (tokens : List Token) : String :=
  " ".intercalate (tokens.map Token.text)

def textOf (tokens : List Token) : Outcome String :=
  render <$> ofTokens tokens

end Reckoner.ReversePolish
