/-
  Reckoner/Expression.lean
  ========================
  **What may be an expression.**  Two checks come before any reading: every
  character must be of the calculator's alphabet, and the parentheses must pair
  up.  A text of blanks only is not a wrong expression but none at all.

  The first check looks at the characters in front of one final line feed, if there
  is one, so such a line feed passes it.
-/
import Reckoner.Failure
import Reckoner.Text.Blank

namespace Reckoner

open Reckoner.Text

/-- The characters of an expression: ASCII digits, the four operators, the point,
    parentheses and the plain space. -/
def inAlphabet (c : Char) : Bool :=
  c.isDigit || c == '+' || c == '-' || c == '*' || c == '/' || c == '.' ||
    c == '(' || c == ')' || c == ' '

/-- Characters without the line end that may close them. -/
def withoutLineEnd (cs : List Char) : List Char :=
  if cs.getLast? == some '\n' then cs.dropLast else cs

/-- Refuses a text without anything in it, and one with a character outside the
    alphabet. -/
def checkAlphabet (text : String) : Outcome Unit :=
  if allBlank text then fail .emptyExpression
  else if (withoutLineEnd text.toList).all inAlphabet then .ok ()
  else fail .invalidExpression

/-- Whether the parentheses pair up, where `depth` of them are open at the start:
    each `)` closes an earlier `(`, and none is left open. -/
def balanced : Nat → List Char → Bool
  | depth, [] => depth == 0
  | depth, c :: cs =>
    if c == '(' then balanced (depth + 1) cs
    else if c == ')' then
      match depth with
      | 0 => false
      | outer + 1 => balanced outer cs
    else balanced depth cs

/-- Refuses characters whose parentheses do not pair up. -/
def checkBalance (cs : List Char) : Outcome Unit :=
  if balanced 0 cs then .ok () else fail .mismatchedParentheses

def checkParentheses (text : String) : Outcome Unit :=
  checkBalance text.toList

end Reckoner
