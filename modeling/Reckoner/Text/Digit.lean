/-
  Reckoner/Text/Digit.lean
  ========================
  **Decimal digits of every script.**  A numeral may be written with the decimal
  digits of any script, and scripts may be mixed: `٣.5` is three and a half.

  Unicode lays each script's ten digits out in order, so the table holds only
  where every run of ten begins.  The five mathematical alphabets from U+1D7CE
  on are runs of their own.  The digits of the calculator's own alphabet are the
  ASCII ones (`Char.isDigit`); this table serves the readers of numerals.
-/
namespace Reckoner.Text

/-- The code points of the digits zero; nine more digits follow each of them. -/
def zeroDigits : List Nat :=
  [0x0030, 0x0660, 0x06F0, 0x07C0, 0x0966, 0x09E6, 0x0A66, 0x0AE6, 0x0B66, 0x0BE6, 0x0C66,
   0x0CE6, 0x0D66, 0x0DE6, 0x0E50, 0x0ED0, 0x0F20, 0x1040, 0x1090, 0x17E0, 0x1810, 0x1946,
   0x19D0, 0x1A80, 0x1A90, 0x1B50, 0x1BB0, 0x1C40, 0x1C50, 0xA620, 0xA8D0, 0xA900, 0xA9D0,
   0xA9F0, 0xAA50, 0xABF0, 0xFF10, 0x104A0, 0x10D30, 0x11066, 0x110F0, 0x11136, 0x111D0,
   0x112F0, 0x11450, 0x114D0, 0x11650, 0x116C0, 0x11730, 0x118E0, 0x11950, 0x11C50,
   0x11D50, 0x11DA0, 0x16A60, 0x16AC0, 0x16B50, 0x1D7CE, 0x1D7D8, 0x1D7E2, 0x1D7EC,
   0x1D7F6, 0x1E140, 0x1E2F0, 0x1E950, 0x1FBF0]

/-- The value of a decimal digit, nothing for any other character. -/
def digitValue? (c : Char) : Option Nat :=
  zeroDigits.findSome? fun start =>
    if start ≤ c.toNat && c.toNat < start + 10 then some (c.toNat - start) else none

/-- Whether a character is a decimal digit of some script. -/
def isAnyDigit (c : Char) : Bool :=
  (digitValue? c).isSome

/-- The run of digits that a text begins with, as values, and what follows it. -/
def digitRun : List Char → List Nat × List Char
  | [] => ([], [])
  | c :: cs =>
    match digitValue? c with
    | some d => (d :: (digitRun cs).1, (digitRun cs).2)
    | none => ([], c :: cs)

/-- The number that digits denote, the most significant first. -/
def ofDigits (digits : List Nat) : Nat :=
  digits.foldl (fun value digit => 10 * value + digit) 0

/-- Digits may be grouped by `_`.  This drops every `_` that stands between two
    digits and keeps all others, which no reader of numerals accepts.  The flag
    tells whether the character before was a digit. -/
def dropGroupMarks : Bool → List Char → List Char
  | _, [] => []
  | afterDigit, c :: cs =>
    if c == '_' && afterDigit && cs.head?.any isAnyDigit then
      dropGroupMarks false cs
    else
      c :: dropGroupMarks (isAnyDigit c) cs

end Reckoner.Text
