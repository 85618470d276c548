/-
  Reckoner/Text/Blank.lean
  ========================
  **Blank characters.**  Text from a user arrives with blanks around and inside
  it, and three rules of the calculator depend on what counts as one:

    * an expression that holds only blanks is an empty expression;
    * a history keeps its expressions stripped of blanks on both sides;
    * a postfix text is a row of items set apart by blanks — `words`.

  A blank is one of the 29 characters that Unicode calls white space or that
  separate records on a line device.  Numerals use a smaller class, which
  `Reckoner/Number/Numeral.lean` defines.
-/
namespace Reckoner.Text

/-- The blank characters: the controls from tabulator to carriage return, the
    four separators U+001C to U+001F, the space, and the spaces and line ends
    outside ASCII. -/
def isBlank (c : Char) : Bool :=
  let n := c.toNat
  (0x09 ≤ n && n ≤ 0x0D) || (0x1C ≤ n && n ≤ 0x20) || n == 0x85 || n == 0xA0 ||
    n == 0x1680 || (0x2000 ≤ n && n ≤ 0x200A) || n == 0x2028 || n == 0x2029 ||
    n == 0x202F || n == 0x205F || n == 0x3000

/-- Characters without the leading and the trailing run that `blank` accepts. -/
def trim (blank : Char → Bool) (cs : List Char) : List Char :=
  ((cs.dropWhile blank).reverse.dropWhile blank).reverse

def strip (text : String) : String :=
  String.ofList (trim isBlank text.toList)

/-- Text that shows nothing: empty, or blanks only. -/
def allBlank (text : String) : Bool :=
  text.toList.all isBlank

/-- The items of a text, in order: its longest runs of characters that are not
    blank. -/
def words (text : String) : List String :=
  ((text.toList.splitOnP isBlank).filter (! ·.isEmpty)).map String.ofList

end Reckoner.Text
