/-
  Reckoner/Text/Quoted.lean
  =========================
  **Quoted text.**  A message that names a wrong text shows it between quotes,
  so that blanks and controls in it can be seen.  Single quotes are used, or
  double ones where the text has a single quote and no double one.

  Inside, the quote in use and the backslash stand behind a backslash, line ends
  and tabulators have their short names, and every other character that cannot
  be seen is written by its number, in two, four or eight hexadecimal digits,
  whichever is the least that holds it.
-/
import Reckoner.Text.Printable

namespace Reckoner.Text

def singleQuote : Char := Char.ofNat 0x27

def doubleQuote : Char := Char.ofNat 0x22

def backslash : Char := Char.ofNat 0x5C

def quoteFor (cs : List Char) : Char :=
  if cs.contains singleQuote && !cs.contains doubleQuote then doubleQuote else singleQuote

/-- A number in hexadecimal digits, `width` of them at least. -/
def hexadecimal (width n : Nat) : List Char :=
  let digits := Nat.toDigits 16 n
  List.replicate (width - digits.length) '0' ++ digits

def byNumber (n : Nat) : List Char :=
  if n < 0x100 then 'x' :: hexadecimal 2 n
  else if n < 0x10000 then 'u' :: hexadecimal 4 n
  else 'U' :: hexadecimal 8 n

/-- A character as it stands between quotes. -/
def escape (quote c : Char) : List Char :=
  if c == quote || c == backslash then [backslash, c]
  else if c == '\n' then [backslash, 'n']
  else if c == '\r' then [backslash, 'r']
  else if c == '\t' then [backslash, 't']
  else if isPrintable c then [c]
  else backslash :: byNumber c.toNat

def quoted (text : String) : String :=
  let cs := text.toList
  let quote := quoteFor cs
  String.ofList (quote :: cs.flatMap (escape quote) ++ [quote])

end Reckoner.Text
