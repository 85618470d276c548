/-
  Reckoner/History.lean
  =====================
  **The history of calculations.**  A history keeps the latest results, oldest
  first, each with its expression and the time it was made.  It has a capacity:
  once that many entries are kept, a new one makes the oldest go.

  Only good results are kept.  `accept` decides that for an expression and a
  result of any kind: the expression must be a text with something in it, and is
  kept without the blanks around it; the result must be a finite number.
-/
import Reckoner.Settings
import Reckoner.Text.Blank
import Reckoner.Value

namespace Reckoner

open Reckoner.Text

structure Entry where
  expression : String
  result : Float
  time : String

/-- The latest calculations, oldest first, and how many may be kept. -/
structure History where
  capacity : Nat
  entries : List Entry

namespace History

def empty (capacity : Nat) : History :=
  ⟨capacity, []⟩

/-- An empty history whose capacity is a value of any kind: a positive integer, or
    nothing, which leaves the choice to the settings. -/
def ofCapacity (settings : Settings) : Value → Except Misuse History
  | .nothing => .ok (empty settings.historyCapacity)
  | .integer i => if 0 < i then .ok (empty i.toNat) else .error (.badCapacity (.integer i))
  | value => .error (.badCapacity value)

/-! ### What is kept -/

/-- The expression and the result that are kept, or why they are not. -/
def accept (expression result : Value) : Answer (String × Float) :=
  match expression with
  | .string text =>
    if allBlank text then .ok missingExpression
    else
      match result with
      | .nothing => .ok (.error (.saying .invalidNumber "Missing result"))
      | .integer i => (nearestDouble i).map (keep text)
      | .double x => .ok (keep text x)
      | _ => .ok (.error (.saying .invalidNumber "Cannot add error results to history"))
  | _ => .ok missingExpression
where
  missingExpression : Outcome (String × Float) :=
    .error (.saying .invalidExpression "Missing or invalid expression")
  keep (text : String) (x : Float) : Outcome (String × Float) :=
    if x.isFinite then .ok (strip text, x)
    else .error (.saying .invalidNumber "Invalid result value")

def latest {α : Type} (n : Nat) (items : List α) : List α :=
  items.drop (items.length - n)

/-- A history with one more entry, the oldest gone if there is no room. -/
def add (history : History) (entry : Entry) : History :=
  { history with entries := latest history.capacity (history.entries ++ [entry]) }

/-! ### What is asked -/

def count (history : History) : Nat :=
  history.entries.length

/-- The position that a value is in a history, counted from zero for the oldest
    entry: an integer with an entry at it, and nothing else. -/
def position? (history : History) : Value → Option Nat
  | .integer i => if 0 ≤ i && i < history.count then some i.toNat else none
  | _ => none

def get? (history : History) (index : Value) : Option Entry :=
  history.position? index >>= fun i => history.entries[i]?

def last? (history : History) : Option Entry :=
  history.entries.getLast?

def erase (history : History) (index : Value) : Outcome History :=
  match history.position? index with
  | some i => .ok { history with entries := history.entries.eraseIdx i }
  | none => .error (.saying .invalidExpression "Invalid index")

/-- A history of the same capacity without any entry. -/
def clear (history : History) : History :=
  { history with entries := [] }

end History

end Reckoner
