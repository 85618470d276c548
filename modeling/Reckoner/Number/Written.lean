/-
  Reckoner/Number/Written.lean
  ============================
  **How numbers are written.**  There are two forms:

    * `written` gives the shortest decimal that reads back.  It has a point and
      a digit on either side of it (`11.0`, `0.0001`), or an exponent of at
      least two digits where the number is below 10^-4 or from 10^16 on
      (`1e-05`, `1.5e+16`);
    * `displayed` is what the calculator shows: a whole number without a point,
      every digit exact, and any other number as `written`.
-/
import Reckoner.Number.Shortest

namespace Reckoner.Number

/-! ### Digits and a point -/

/-- The lowest power of ten whose numbers are written without an exponent. -/
def positionalFrom : Int := -4

/-- The lowest power of ten above those. -/
def positionalBelow : Int := 16

def zeros (n : Nat) : List Char :=
  List.replicate n '0'

/-- Digits with the point after the first `point` of them, zeros filling the
    places where there are no digits. -/
def writePositional (digits : List Char) (point : Int) : List Char :=
  if point ≤ 0 then
    '0' :: '.' :: (zeros (-point).toNat ++ digits)
  else
    let whole := point.toNat
    if digits.length ≤ whole then
      digits ++ zeros (whole - digits.length) ++ ['.', '0']
    else
      digits.take whole ++ '.' :: digits.drop whole

/-- Digits with the point after the first, if more follow, and the power of ten
    of the first, its own digits two at least. -/
def writeScientific (digits : List Char) (power : Int) : List Char :=
  let mantissa :=
    match digits with
    | [] => []
    | [d] => [d]
    | d :: ds => d :: '.' :: ds
  let size := digitsOf power.natAbs
  mantissa ++ 'e' :: (if power < 0 then '-' else '+') :: (zeros (2 - size.length) ++ size)

/-- A positive decimal in either form.  Zeros at the end of its coefficient are
    not digits of it. -/
def Decimal.write (d : Decimal) : List Char :=
  let all := digitsOf d.coefficient
  let digits := (all.reverse.dropWhile (· == '0')).reverse
  let power : Int := d.exponent + all.length - 1
  if positionalFrom ≤ power && power < positionalBelow then
    writePositional digits (power + 1)
  else
    writeScientific digits power

/-! ### Doubles -/

def signText : Float.Model.UnpackedFloat.Sign → String
  | .positive => ""
  | .negative => "-"

/-- A double as the shortest decimal that reads back. -/
def written (x : Float) : String :=
  match x.toModel.unpack with
  | .notANumber => "nan"
  | .infinity sign => signText sign ++ "inf"
  | .zero sign => signText sign ++ "0.0"
  | .finite sign significand exponent positive =>
    signText sign ++ String.ofList (shortest significand exponent positive).write

/-- The size of `significand * 2 ^ exponent` where that is a whole number. -/
def wholeSize? (significand : Nat) (exponent : Int) : Option Nat :=
  if 0 ≤ exponent then some (significand * Nat.pow 2 exponent.toNat)
  else
    let unit := Nat.pow 2 (-exponent).toNat
    if significand % unit == 0 then some (significand / unit) else none

/-- The integer that a double is, if it is one.  Both zeros are. -/
def toInt? (x : Float) : Option Int :=
  match x.toModel.unpack with
  | .notANumber => none
  | .infinity _ => none
  | .zero _ => some 0
  | .finite sign significand exponent _ =>
    (wholeSize? significand exponent).map fun (size : Nat) =>
      match sign with
      | .positive => (size : Int)
      | .negative => -(size : Int)

def writtenInt (i : Int) : String :=
  (if i < 0 then "-" else "") ++ String.ofList (digitsOf i.natAbs)

def displayed (x : Float) : String :=
  match toInt? x with
  | some i => writtenInt i
  | none => written x

end Reckoner.Number
