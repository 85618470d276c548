/-
  Reckoner/Token.lean
  ===================
  **Tokens.**  A token is a piece of an expression together with the part that it
  plays there.  The two are kept apart on purpose: the stages after the lexer go
  by the part (`kind`), never by the text, so they are defined on every list of
  tokens, also on tokens whose text does not fit their kind or whose kind no
  stage knows (`TokenKind.other`).
-/
import Reckoner.Operator

namespace Reckoner

inductive TokenKind
  | number
  | operator
  | leftParen
  | rightParen
  | other (name : String)
deriving DecidableEq, Repr

/-- A piece of an expression and the part it plays.  A number may carry a minus
    sign. -/
structure Token where
  kind : TokenKind
  text : String
deriving DecidableEq, Repr

namespace Token

/-- The token of a text: an operator or a parenthesis where it is the sign of
    one, else a number. -/
def classify (text : String) : Token :=
  if (Operator.ofText? text).isSome then ⟨.operator, text⟩
  else if text == "(" then ⟨.leftParen, text⟩
  else if text == ")" then ⟨.rightParen, text⟩
  else ⟨.number, text⟩

def isNumber (t : Token) : Bool :=
  t.kind == .number

def isOperator (t : Token) : Bool :=
  t.kind == .operator

/-- The precedence of an operator token, zero for all others and for an operator
    that is none of the four. -/
def precedence (t : Token) : Nat :=
  if t.isOperator then ((Operator.ofText? t.text).map Operator.precedence).getD 0 else 0

end Token

end Reckoner
