/-
  Reckoner/Console.lean
  =====================
  **Consoles.**  All that the calculator has to show goes to a console, item by
  item: a line, a prompt or a table.  What becomes of an item is the console's
  affair, its colours, the ends of its lines and the bars of its tables.  A console
  may also fail, say where its stream does not take a character.  So it is a
  parameter of whatever shows something, and no console is described here.

  The texts of an item are markup: `[style]` begins a style and `[/style]` ends it.
-/
import Reckoner.Value

namespace Reckoner

/-! ### Items -/

/-- A text in a style. -/
def tagged (style text : String) : String :=
  "[" ++ style ++ "]" ++ text ++ "[/" ++ style ++ "]"

structure Column where
  heading : String
  style : Option String
  /-- The number of characters that there is room for at least. -/
  leastWidth : Option Nat
  toTheRight : Bool
deriving DecidableEq, Repr

/-- A table with a title, and in each of its rows one cell for each column. -/
structure Table where
  title : String
  headingStyle : String
  columns : List Column
  rows : List (List String)
deriving DecidableEq, Repr

inductive Item
  /-- A line.  The console may give numbers a colour of its own, or not. -/
  | line (markup : String) (coloured : Bool)
  /-- What stands in front of a line that is read. -/
  | prompt (markup : String)
  | table (table : Table)
deriving DecidableEq, Repr

/-! ### Consoles -/

/-- What an item looks like on a console, or how the console fails at it. -/
structure Console (ε : Type) where
  render : Item → Except ε String

/-- Why something is not shown: there is no text for a value, or the console fails. -/
inductive Interruption (ε : Type)
  | misuse (misuse : Misuse)
  | console (error : ε)

/-- An item that a console was given, and the text that it made of it. -/
structure Shown where
  item : Item
  text : String
deriving DecidableEq, Repr

/-- Shows an item, if there is one. -/
def Console.print {ε : Type} (console : Console ε) :
    Except Misuse Item → Except (Interruption ε) Shown
  | .error misuse => .error (.misuse misuse)
  | .ok item =>
    match console.render item with
    | .ok text => .ok ⟨item, text⟩
    | .error error => .error (.console error)

end Reckoner
