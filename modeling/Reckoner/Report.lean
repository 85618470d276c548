/-
  Reckoner/Report.lean
  ====================
  **What is shown.**  A result is a line with the number, a failure a line with
  its message and kind.  A history is a table of four columns: the number of an
  entry, its expression, its result and its time.

  A number that is not finite has no text, so an item that shows a number may not
  exist.
-/
import Reckoner.Console
import Reckoner.History
import Reckoner.Questions

namespace Reckoner.Report

open Reckoner.Number

def line (markup : String) : Item :=
  .line markup true

/-- The text of a number in markup of its own. -/
def number (x : Float) (markup : String → String) : Except Misuse Item :=
  (Value.displayed (.double x)).map fun shown => line (markup shown)

/-! ### Outcomes -/

def failureLine (failure : Failure) : Item :=
  line (tagged "red" "Error" ++ ": " ++ failure.message ++ " " ++
    tagged "dim" ("(" ++ failure.kind.name ++ ")"))

def outcome : Outcome Float → Except Misuse Item
  | .ok x => number x (tagged "bold green")
  | .error failure => .ok (failureLine failure)

def member (name value : String) : String :=
  "\"" ++ name ++ "\": " ++ value

def record (members : List String) : String :=
  "\x7b" ++ ", ".intercalate members ++ "\x7d"

/-- An outcome as a record.  No message or name holds a character that would need
    an escape. -/
def outcomeRecord : Outcome Float → String
  | .ok x => record [member "ok" "true", member "value" (written x)]
  | .error failure =>
    record [member "ok" "false", member "kind" ("\"" ++ failure.kind.name ++ "\""),
      member "message" ("\"" ++ failure.message ++ "\"")]

/-! ### Histories -/

def columns : List Column :=
  [⟨"#", some "dim", none, true⟩, ⟨"Expression", none, some 20, false⟩,
    ⟨"Result", some "green", none, true⟩, ⟨"Time", some "dim", none, false⟩]

/-- The cells of an entry with a number, one for each column. -/
def cells (number : Nat) (entry : Entry) : Except Misuse (List String) :=
  (Value.displayed (.double entry.result)).map fun shown =>
    [writtenInt number, entry.expression, shown, entry.time]

/-- The rows of entries, numbered on from a number. -/
def rowsFrom (number : Nat) : List Entry → Except Misuse (List (List String))
  | [] => .ok []
  | entry :: entries => do
    let row ← cells number entry
    let rows ← rowsFrom (number + 1) entries
    return row :: rows

/-- A history: its table, or a line that there is nothing in it. -/
def history (history : History) : Except Misuse Item :=
  match history.entries with
  | [] => .ok (line (tagged "yellow" "No calculations yet."))
  | entries => (rowsFrom 1 entries).map fun rows => .table ⟨"History", "bold", columns, rows⟩

/-- The closing line of a session: how many calculations are kept, and the newest
    of them.  Nothing where none is kept. -/
def summary? (history : History) : Option (Except Misuse Item) :=
  history.last?.map fun entry => number entry.result fun shown =>
    tagged "dim" (writtenInt history.count ++ " calculation(s), last: " ++ entry.expression ++
      " = " ++ shown)

end Reckoner.Report
