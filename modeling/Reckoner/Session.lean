/-
  Reckoner/Session.lean
  =====================
  **Sessions.**  In a session the calculator reads a line, answers it and keeps
  each value in a history, until the user leaves or the lines end.  A line is a
  command, an expression or blank; blanks around it do not matter.

  A session is a function of its console, the lines and the time each of them was
  read, so what it shows and what it keeps can be stated without running it.  It
  ends at once where the console fails, or where an item does not exist.
-/
import Reckoner.History.Operation
import Reckoner.Report
import Reckoner.Text.Lines

namespace Reckoner.Session

open Reckoner.Text

/-! ### Requests -/

inductive Request
  | nothing
  | leave
  | showHistory
  | clearHistory
  | calculate (expression : String)
deriving DecidableEq, Repr

def Request.ofLine (text : String) : Request :=
  let stripped := strip text
  if stripped.isEmpty then .nothing
  else if stripped == ":quit" || stripped == ":q" then .leave
  else if stripped == ":history" then .showHistory
  else if stripped == ":clear" then .clearHistory
  else .calculate stripped

/-- A line and the time at which it was read. -/
structure Line where
  text : String
  time : String
deriving DecidableEq, Repr

/-- The lines of a text, all read at one time. -/
def linesOf (text time : String) : List Line :=
  (lines text).map fun line => ⟨line, time⟩

/-! ### Answers -/

def greeting : Item :=
  Report.line (tagged "dim" ":history  show past results   :clear  forget them   :quit  leave")

/-- What stands before each line that is read. -/
def prompt : Item :=
  .prompt (tagged "bold" "> ")

/-- A history after an outcome: a value is pushed, whatever becomes of it, and a
    failure is not. -/
def keep (history : History) (expression time : String) : Outcome Float → History
  | .ok x => (history.push (.string expression) (.double x) time).1
  | .error _ => history

section Console

variable {ε : Type} (console : Console ε)

/-- What is shown for a request other than to leave, and the history after it. -/
def respond (history : History) (time : String) :
    Request → Except (Interruption ε) (List Shown × History)
  | .nothing => return ([], history)
  | .leave => return ([], history)
  | .showHistory => do
    let shown ← console.print (Report.history history)
    return ([shown], history)
  | .clearHistory => do
    let shown ← console.print (.ok (Report.line "History cleared"))
    return ([shown], history.clear)
  | .calculate expression => do
    let outcome := Reckoner.calculate expression
    let shown ← console.print (Report.outcome outcome)
    return ([shown], keep history expression time outcome)

/-- What is shown for a row of lines, a prompt before each, and the history at
    the end.  The prompt for a line that never comes is shown too. -/
def converse (history : History) : List Line → Except (Interruption ε) (List Shown × History)
  | [] => do
    let asked ← console.print (.ok prompt)
    return ([asked], history)
  | line :: rest => do
    let asked ← console.print (.ok prompt)
    match Request.ofLine line.text with
    | .leave => return ([asked], history)
    | request =>
      let (shown, after) ← respond console history line.time request
      let (further, final) ← converse after rest
      return (asked :: shown ++ further, final)

/-- What is shown when a session ends. -/
def conclude (history : History) : Except (Interruption ε) (List Shown) :=
  match Report.summary? history with
  | none => return []
  | some item => do
    let shown ← console.print item
    return [shown]

/-- All that is shown in a session, and the history at its end. -/
def hold (capacity : Nat) (lines : List Line) :
    Except (Interruption ε) (List Shown × History) := do
  let greeted ← console.print (.ok greeting)
  let (shown, final) ← converse console (.empty capacity) lines
  let closing ← conclude console final
  return (greeted :: shown ++ closing, final)

end Console

end Reckoner.Session
