/-
  Reckoner/Text/Lines.lean
  ========================
  **Lines.**  A line ends with a line feed, a carriage return, or a carriage
  return and a line feed; the last line of a text needs no end.  After the last
  line end no further line begins.
-/
namespace Reckoner.Text

/-- Characters with every kind of line end made a line feed. -/
def normalizeLineEnds : List Char → List Char
  | [] => []
  | '\r' :: '\n' :: cs => '\n' :: normalizeLineEnds cs
  | '\r' :: cs => '\n' :: normalizeLineEnds cs
  | c :: cs => c :: normalizeLineEnds cs

/-- The lines of characters whose line ends are line feeds, without those ends;
    `line` holds what has been read of the current one, last character first. -/
def splitLines (line : List Char) : List Char → List (List Char)
  | [] => if line.isEmpty then [] else [line.reverse]
  | c :: cs => if c == '\n' then line.reverse :: splitLines [] cs else splitLines (c :: line) cs

def lines (text : String) : List String :=
  (splitLines [] (normalizeLineEnds text.toList)).map String.ofList

end Reckoner.Text
