/-
  Reckoner/History/Operation.lean
  ===============================
  **Operations on a history.**  A history is used through a row of operations,
  each of which gives a reply and leaves a history behind.  Only three of them
  can change it: a push that is accepted, a removal at a valid position, and the
  clearing of all entries.  Whatever is refused leaves it as it was.
-/
import Reckoner.History
import Reckoner.Questions

namespace Reckoner.History

inductive Operation
  | push (expression result : Value) (time : String)
  | get (index : Value)
  | remove (index : Value)
  | clear
  | all
  | last
  | count

inductive Reply
  | outcome (outcome : Outcome Unit)
  | misuse (misuse : Misuse)
  | entry (entry : Option Entry)
  | entries (entries : List Entry)
  | number (n : Nat)
  | cleared

def push (history : History) (expression result : Value) (time : String) : History × Reply :=
  match accept expression result with
  | .ok (.ok (text, x)) => (history.add ⟨text, x, time⟩, .outcome (.ok ()))
  | .ok (.error failure) => (history, .outcome (.error failure))
  | .error misuse => (history, .misuse misuse)

def remove (history : History) (index : Value) : History × Reply :=
  match history.erase index with
  | .ok shorter => (shorter, .outcome (.ok ()))
  | .error failure => (history, .outcome (.error failure))

/-- The history after an operation, and the reply to it. -/
def perform (history : History) : Operation → History × Reply
  | .push expression result time => history.push expression result time
  | .get index => (history, .entry (history.get? index))
  | .remove index => history.remove index
  | .clear => (history.clear, .cleared)
  | .all => (history, .entries history.entries)
  | .last => (history, .entry history.last?)
  | .count => (history, .number history.count)

def performAll (history : History) (operations : List Operation) : History :=
  operations.foldl (fun current operation => (current.perform operation).1) history

/-- Calculates an expression and pushes its value; a failure of the calculation
    is the reply and leaves the history alone. -/
def calculateAndPush (history : History) (expression : Value) (time : String) :
    History × Reply :=
  match expression.calculate with
  | .ok x => history.push expression (.double x) time
  | .error failure => (history, .outcome (.error failure))

end Reckoner.History
