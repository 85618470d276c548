/-
  Reckoner/Token/Lexer.lean
  =========================
  **From text to tokens.**  The lexer reads one character at a time and keeps the
  number it is in the middle of (`Pending`).  A number is a row of digits, a
  point and a row of digits, the first row or the point with it possibly
  missing; it is read for as long as it can go on.  A point that no digit follows
  belongs to no number.  Every character that belongs to no token is skipped.

  The one decision that has to wait is a point after digits: the next character
  tells whether it is part of the number (`Pending.point`).  So a text is read by
  a fold with a flush at its end, and reading `u ++ v` is reading `u` and then
  `v` from the state where `u` stopped.
-/
import Reckoner.Token

namespace Reckoner

/-- The number that the lexer is in the middle of. -/
inductive Pending
  /-- No number has begun. -/
  | nothing
  /-- A row of digits. -/
  | whole (digits : String)
  /-- A row of digits, perhaps an empty one, and a point not yet decided on. -/
  | point (digits : String)
  /-- A number whose point has been decided on. -/
  | fraction (text : String)
deriving DecidableEq, Repr

namespace Pending

/-- The token of the pending number when no more of it follows. -/
def flush : Pending → List Token
  | nothing => []
  | whole digits => [⟨.number, digits⟩]
  | point digits => if digits.isEmpty then [] else [⟨.number, digits⟩]
  | fraction text => [⟨.number, text⟩]

/-- The token that a single character is, if it is an operator or a parenthesis. -/
def symbol (c : Char) : List Token :=
  if c == '+' || c == '-' || c == '*' || c == '/' then [⟨.operator, c.toString⟩]
  else if c == '(' then [⟨.leftParen, c.toString⟩]
  else if c == ')' then [⟨.rightParen, c.toString⟩]
  else []

def addDigit (pending : Pending) (c : Char) : Pending :=
  match pending with
  | nothing => whole c.toString
  | whole digits => whole (digits.push c)
  | point digits => fraction ((digits.push '.').push c)
  | fraction text => fraction (text.push c)

/-- The tokens that are complete once a character is read, and what is pending
    after it. -/
def step (pending : Pending) (c : Char) : List Token × Pending :=
  if c.isDigit then ([], pending.addDigit c)
  else if c == '.' then
    match pending with
    | whole digits => ([], point digits)
    | _ => (pending.flush, point "")
  else (pending.flush ++ symbol c, nothing)

/-- The tokens of a text that follows the pending number. -/
def scan (pending : Pending) : List Char → List Token
  | [] => pending.flush
  | c :: cs => (pending.step c).1 ++ (pending.step c).2.scan cs

end Pending

/-- The tokens of a text, in order.  A text without any is no expression. -/
def tokenize (text : String) : Outcome (List Token) :=
  match Pending.nothing.scan text.toList with
  | [] => fail .invalidExpression
  | tokens => .ok tokens

end Reckoner
