/-
  Reckoner/Number/Numeral.lean
  ============================
  **Reading numerals.**  Two readers, both over characters:

    * `Numeral.read?` takes a numeral with an optional point and exponent, or
      one of the names of infinity and of no number at all;
    * `readInteger` takes a whole number and tells why it refuses one.

  Both allow blanks around the numeral, a sign, the digits of any script and `_`
  between two digits.  A numeral keeps its exact decimal value; rounding to a
  double is the last step (`Numeral.toFloat`).
-/
import Reckoner.Number.Decimal
import Reckoner.Text.Blank
import Reckoner.Text.Digit

namespace Reckoner.Number

open Reckoner.Text

/-! ### What both readers share -/

/-- The blanks that may surround a numeral: all but the four separators U+001C
    to U+001F. -/
def isNumeralBlank (c : Char) : Bool :=
  isBlank c && !(0x1C ≤ c.toNat && c.toNat ≤ 0x1F)

/-- The sign in front of a numeral, `true` for minus, and the rest. -/
def splitSign : List Char → Bool × List Char
  | '-' :: cs => (true, cs)
  | '+' :: cs => (false, cs)
  | cs => (false, cs)

/-- The sign and the body of a numeral: blanks around it and group marks inside
    it are gone. -/
def signAndBody (cs : List Char) : Bool × List Char :=
  let (negative, body) := splitSign (trim isNumeralBlank cs)
  (negative, dropGroupMarks false body)

/-! ### Numerals with point and exponent -/

/-- The size of a numeral, without its sign. -/
inductive Magnitude
  | decimal (value : Decimal)
  | infinite
  | notANumber
deriving DecidableEq, Repr

structure Numeral where
  negative : Bool
  magnitude : Magnitude
deriving DecidableEq, Repr

def Magnitude.toFloat : Magnitude → Float
  | .decimal value => value.toFloat
  | .infinite => .ofModel (.pack (.infinity .positive))
  | .notANumber => .ofModel (.pack .notANumber)

/-- The double nearest to a numeral.  The sign comes last, so `-0` is the
    negative zero. -/
def Numeral.toFloat (n : Numeral) : Float :=
  if n.negative then -n.magnitude.toFloat else n.magnitude.toFloat

/-- An exponent mark and a signed row of digits, or nothing at all, up to the end
    of the numeral. -/
def readExponent? : List Char → Option Int
  | [] => some 0
  | c :: cs =>
    if c == 'e' || c == 'E' then
      match splitSign cs with
      | (negative, body) =>
        match digitRun body with
        | ([], _) => none
        | (digits, []) => some (if negative then -(ofDigits digits : Int) else ofDigits digits)
        | (_, _ :: _) => none
    else none

/-- The digits after the point, if there is a point, and the rest. -/
def readFraction : List Char → List Nat × List Char
  | '.' :: cs => digitRun cs
  | cs => ([], cs)

/-- Digits, an optional point with more digits, an optional exponent.  At least
    one digit must stand before the exponent, on either side of the point. -/
def Decimal.read? (cs : List Char) : Option Decimal :=
  match digitRun cs with
  | (whole, afterWhole) =>
    match readFraction afterWhole with
    | (fraction, afterFraction) =>
      if whole.isEmpty && fraction.isEmpty then none
      else (readExponent? afterFraction).map fun exponent =>
        ⟨ofDigits (whole ++ fraction), exponent - fraction.length⟩

/-- The body of a numeral: a decimal, or in any case of letters the names of
    infinity and of no number. -/
def Magnitude.read? (cs : List Char) : Option Magnitude :=
  let name := String.ofList (cs.map Char.toLower)
  if name == "inf" || name == "infinity" then some .infinite
  else if name == "nan" then some .notANumber
  else (Decimal.read? cs).map .decimal

def Numeral.read? (text : String) : Option Numeral :=
  match signAndBody text.toList with
  | (negative, body) => (Magnitude.read? body).map fun magnitude => ⟨negative, magnitude⟩

/-- The double that a text denotes, nothing where it is no numeral. -/
def readFloat? (text : String) : Option Float :=
  (Numeral.read? text).map Numeral.toFloat

/-! ### Whole numbers -/

/-- A whole number may have this many digits, leading zeros included. -/
def integerDigitLimit : Nat := 4300

inductive IntegerFault
  | malformed
  | tooLong (digits : Nat)
deriving DecidableEq, Repr

/-- Reads a whole number.  A misplaced group mark is found before the length is
    looked at, and the length before what follows the digits. -/
def readInteger (text : String) : Except IntegerFault Int :=
  match signAndBody text.toList with
  | (negative, body) =>
    match digitRun body with
    | (digits, rest) =>
      if digits.isEmpty || rest.head? == some '_' then .error .malformed
      else if integerDigitLimit < digits.length then .error (.tooLong digits.length)
      else if rest.isEmpty then
        .ok (if negative then -(ofDigits digits : Int) else ofDigits digits)
      else .error .malformed

end Reckoner.Number
