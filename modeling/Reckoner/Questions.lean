/-
  Reckoner/Questions.lean
  =======================
  **The calculator asked about values of any kind.**  Each stage of the
  calculator is about texts or numbers; here stands what each of them says of
  any value at all.  On a text or a double an answer is the one of the stage
  itself, and otherwise:

    * a value that counts as nothing is an empty expression, and any other value
      that is no text is a misuse;
    * `calculate` answers every misuse with a calculation error, so it always
      has an outcome;
    * a truth value counts as one or zero wherever a number is asked for, and an
      integer is taken exactly where it is compared and rounded where it is kept.
-/
import Reckoner.Calculator
import Reckoner.Value

namespace Reckoner.Value

open Reckoner.Number Reckoner.Text

/-! ### Expressions -/

def checkAlphabet (value : Value) : Answer Unit :=
  match value with
  | .string text => .ok (Reckoner.checkAlphabet text)
  | value => if value.isSomething then .error .notText else .ok (fail .emptyExpression)

/-- The parenthesis that an item of a list is, any other character standing for
    all that is none. -/
def parenthesis : Value → Char
  | .string "(" => '('
  | .string ")" => ')'
  | _ => ' '

/-- The check of the parentheses; in a list each item counts as a character. -/
def checkParentheses : Value → Answer Unit
  | .string text => .ok (Reckoner.checkParentheses text)
  | .list items => .ok (checkBalance (items.map parenthesis))
  | _ => .error .wrongKind

def tokenize : Value → Answer (List Token)
  | .string text => .ok (Reckoner.tokenize text)
  | _ => .error .wrongKind

def toReversePolish (value : Value) : Answer String :=
  match value with
  | .string text => .ok (Reckoner.toReversePolish text)
  | value => if value.isSomething then .error .notText else .ok (fail .emptyExpression)

def evaluateReversePolish : Value → Answer Float
  | .string text => .ok (ReversePolish.evaluate text)
  | _ => .error .notText

def calculate (value : Value) : Outcome Float :=
  match value.toReversePolish with
  | .ok converted => converted >>= ReversePolish.evaluate
  | .error _ => fail .calculationError

/-! ### Numbers -/

def isFiniteNumber : Value → Except Misuse Bool
  | .nothing => .ok false
  | .list _ => .ok false
  | .truth _ => .ok true
  | .integer i => (nearestDouble i).map Float.isFinite
  | .double x => .ok x.isFinite
  | .string text => .ok (isFiniteNumeral text)

/-- The finite number in the safe range that a value reads as. -/
def parseNumber : Value → Answer Float
  | .nothing => .ok (.error (.saying .invalidNumber "Value is missing"))
  | .list _ => .ok (fail .invalidNumber)
  | .truth b => .ok (checkNumber (ofTruth b))
  | .integer i => (nearestDouble i).map checkNumber
  | .double x => .ok (checkNumber x)
  | .string text => .ok (Reckoner.parseNumber text)

def inSafeRange : Value → Except Misuse Bool
  | .truth _ => .ok true
  | .integer i => .ok (intInSafeRange i)
  | .double x => .ok (Number.inSafeRange x)
  | _ => .error .wrongKind

/-- What the calculator shows for a value.  A text that reads as a whole number
    is shown between quotes, as it is not that number. -/
def displayed : Value → Except Misuse String
  | .truth b => .ok (if b then "1" else "0")
  | .integer i => .ok (writtenInt i)
  | .double x =>
    if x.isNaN then .error .noInteger
    else if x.isInf then .error .infiniteInteger
    else .ok (Number.displayed x)
  | .string text =>
    match readInteger text with
    | .ok _ => .ok (quoted text)
    | .error .malformed => .error (.unreadableInteger text)
    | .error (.tooLong digits) => .error (.integerTooLong integerDigitLimit digits)
  | _ => .error .wrongKind

end Reckoner.Value
