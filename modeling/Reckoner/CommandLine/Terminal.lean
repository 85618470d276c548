/-
  Reckoner/CommandLine/Terminal.lean
  ==================================
  **A plain terminal.**  The console that the program is run with: it has no
  colours, so the tags of the markup are left out, and it is as wide as any line.
  A column is as wide as its widest cell, and the title of a table stands in the
  middle above.

  It belongs to the outer layer of the program.  What the calculator does is stated
  for every console, and nothing below the command line knows of this one.
-/
import Reckoner.Console

namespace Reckoner.Terminal

/-- Characters of markup without its tags, `inside` telling whether a tag has
    begun. -/
def dropTags (inside : Bool) : List Char → List Char
  | [] => []
  | c :: cs =>
    if inside then dropTags (c != ']') cs
    else if c == '[' then dropTags true cs
    else c :: dropTags false cs

def plain (markup : String) : String :=
  String.ofList (dropTags false markup.toList)

/-! ### Tables -/

def repeated (n : Nat) (text : String) : String :=
  String.join (List.replicate n text)

/-- The width of each column: no cell of it is wider, nor is its heading. -/
def widths (table : Table) : List Nat :=
  table.rows.foldl (List.zipWith fun width cell => max width cell.length)
    (table.columns.map fun column => max (column.leastWidth.getD 0) column.heading.length)

/-- A cell filled up to a width, with a blank on either side. -/
def fill (column : Column) (width : Nat) (cell : String) : String :=
  let blanks := repeated (width - cell.length) " "
  " " ++ (if column.toTheRight then blanks ++ cell else cell ++ blanks) ++ " "

def row (columns : List Column) (widths : List Nat) (bar : String) (cells : List String) :
    String :=
  let filled := List.zipWith (fun (column, width) cell => fill column width cell)
    (columns.zip widths) cells
  bar ++ bar.intercalate filled ++ bar ++ "\n"

/-- A rule across a table, from its left end over its joints to its right end. -/
def rule (widths : List Nat) (left run joint right : String) : String :=
  left ++ joint.intercalate (widths.map fun width => repeated (width + 2) run) ++ right ++ "\n"

/-- A title in the middle of a line, the greater half of the blanks after it. -/
def titleLine (title : String) (width : Nat) : String :=
  let left := (width - title.length) / 2
  repeated left " " ++ title ++ repeated (width - title.length - left) " " ++ "\n"

def draw (table : Table) : String :=
  let sizes := widths table
  titleLine table.title (sizes.foldl (fun total size => total + size + 3) 1) ++
    rule sizes "┏" "━" "┳" "┓" ++
    row table.columns sizes "┃" (table.columns.map Column.heading) ++
    rule sizes "┡" "━" "╇" "┩" ++
    String.join (table.rows.map (row table.columns sizes "│")) ++
    rule sizes "└" "─" "┴" "┘"

/-! ### The console -/

def render : Item → String
  | .line markup _ => plain markup ++ "\n"
  | .prompt markup => plain markup
  | .table table => draw table

/-- The terminal takes every character, so it never fails. -/
def console : Console Empty :=
  ⟨fun item => .ok (render item)⟩

/-- What interrupts the program where the console never fails. -/
def misuseOf : Interruption Empty → Misuse
  | .misuse misuse => misuse
  | .console error => error.elim

end Reckoner.Terminal
