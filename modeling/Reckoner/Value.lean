/-
  Reckoner/Value.lean
  ===================
  **Values of any kind.**  A caller may hand over a value that is no text and no
  number.  What the calculator does then is part of its behaviour: it counts as
  a failure of the calculation, or as a misuse of the calculator.  A misuse is
  not an outcome: it says that the question made no sense for that kind of value.
-/
import Reckoner.Failure
import Reckoner.Number.Written
import Reckoner.Text.Quoted

namespace Reckoner

open Reckoner.Number Reckoner.Text

/-! ### Values and how they are shown -/

inductive Value
  | nothing
  | truth (value : Bool)
  | integer (value : Int)
  | double (value : Float)
  | string (value : String)
  | list (items : List Value)
deriving Inhabited

mutual

/-- A value as a message shows it. -/
def Value.shown : Value → String
  | .nothing => "None"
  | .truth true => "True"
  | .truth false => "False"
  | .integer value => writtenInt value
  | .double value => written value
  | .string value => quoted value
  | .list items => "[" ++ Value.shownItems items ++ "]"

def Value.shownItems : List Value → String
  | [] => ""
  | [item] => item.shown
  | item :: items => item.shown ++ ", " ++ Value.shownItems items

end

/-- Whether a value counts as something: not nothing, false, zero or empty. -/
def Value.isSomething : Value → Bool
  | .nothing => false
  | .truth value => value
  | .integer value => value != 0
  | .double value => !(toInt? value == some 0)
  | .string value => !value.isEmpty
  | .list items => !items.isEmpty

/-! ### Misuses -/

/-- Why a question made no sense for the value that it was asked of. -/
inductive Misuse
  /-- A text is needed, and the value offers nothing that a text does. -/
  | notText
  /-- The value is of a kind that the question does not apply to. -/
  | wrongKind
  /-- An integer that no double comes near. -/
  | integerTooLarge
  /-- An infinite number where an integer is asked for. -/
  | infiniteInteger
  /-- No number at all where an integer is asked for. -/
  | noInteger
  /-- A text that does not read as an integer. -/
  | unreadableInteger (text : String)
  /-- A text with more digits than an integer may have. -/
  | integerTooLong (limit digits : Nat)
  /-- A value that is no capacity for a history. -/
  | badCapacity (value : Value)
  /-- A name that stands for a text where a level is looked up. -/
  | notALevel (text : String)

/-- The message of a misuse, where it has one. -/
def Misuse.message? : Misuse → Option String
  | .notText => none
  | .wrongKind => none
  | .integerTooLarge => some "int too large to convert to float"
  | .infiniteInteger => some "cannot convert float infinity to integer"
  | .noInteger => some "cannot convert float NaN to integer"
  | .unreadableInteger text =>
    some ("invalid literal for int() with base 10: " ++
      String.ofList ((quoted text).toList.take 200))
  | .integerTooLong limit digits =>
    some ("Exceeds the limit (" ++ writtenInt limit ++
      " digits) for integer string conversion: value has " ++ writtenInt digits ++
      " digits; use sys.set_int_max_str_digits() to increase the limit")
  | .badCapacity value => some ("max_entries must be a positive integer, got " ++ value.shown)
  | .notALevel text => some ("Unknown level: " ++ quoted text)

/-! ### Values as numbers -/

/-- The double nearest to an integer, if there is one. -/
def nearestDouble (i : Int) : Except Misuse Float :=
  let x := ofInt i
  if x.isFinite then .ok x else .error .integerTooLarge

def ofTruth (b : Bool) : Float :=
  ofInt (if b then 1 else 0)

/-! ### Answers -/

/-- What a question about a value of any kind gives. -/
abbrev Answer (α : Type) := Except Misuse (Outcome α)

end Reckoner
