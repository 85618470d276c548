/-
  Reckoner/Command.lean
  =====================
  **Commands.**  `evaluate` shows the value of an expression, `convert` its reverse
  Polish text, and `converse` holds a session.  There are two consoles, one for what
  is asked for and one for errors, and the program leaves with a code that tells
  whether a calculation failed.
-/
import Reckoner.Session

namespace Reckoner

inductive Command
  /-- To show the value of an expression, after its reverse Polish text if that is
      wanted, or as a record. -/
  | evaluate (expression : String) (withReversePolish asRecord : Bool)
  | convert (expression : String)
  /-- To hold a session whose history has a capacity. -/
  | converse (capacity : Nat)
deriving DecidableEq, Repr

namespace Command

/-- What the program writes, and the code that it leaves with. -/
structure Response where
  exitCode : Nat
  output : String
  errors : String
deriving DecidableEq, Repr

/-- The code of a failed calculation: one, and zero otherwise. -/
def exitCodeOf {α : Type} : Outcome α → Nat
  | .ok _ => 0
  | .error _ => 1

/-- What is written for the value of an expression as a record; a failure is part
    of the record. -/
def answerRecord (expression : String) : Response :=
  let outcome := calculate expression
  ⟨exitCodeOf outcome, Report.outcomeRecord outcome ++ "\n", ""⟩

section Console

variable {ε : Type} (console errorConsole : Console ε)

def answerFailure (failure : Failure) : Except (Interruption ε) Response := do
  let shown ← errorConsole.print (.ok (Report.failureLine failure))
  return ⟨1, "", shown.text⟩

/-- The line with the reverse Polish text of an expression that has a value. -/
def reversePolishLine (expression : String) : Item :=
  Report.line (tagged "dim" "postfix:" ++ " " ++
    match toReversePolish expression with
    | .ok text => text
    | .error _ => Value.nothing.shown)

def answerEvaluate (expression : String) (withReversePolish : Bool) :
    Except (Interruption ε) Response :=
  match calculate expression with
  | .error failure => answerFailure errorConsole failure
  | .ok x => do
    let converted ←
      if withReversePolish then (console.print (.ok (reversePolishLine expression))).map Shown.text
      else pure ""
    let shown ← console.print (Report.outcome (.ok x))
    return ⟨0, converted ++ shown.text, ""⟩

def answerConvert (expression : String) : Except (Interruption ε) Response :=
  match toReversePolish expression with
  | .ok text => do
    let shown ← console.print (.ok (.line text false))
    return ⟨0, shown.text, ""⟩
  | .error failure => answerFailure errorConsole failure

def answerConverse (capacity : Nat) (lines : List Session.Line) :
    Except (Interruption ε) Response := do
  let (shown, _) ← Session.hold console capacity lines
  return ⟨0, String.join (shown.map Shown.text), ""⟩

/-- What the program writes for a command, where `lines` are there to be read. -/
def answer (lines : List Session.Line) : Command → Except (Interruption ε) Response
  | .evaluate expression _ true => return answerRecord expression
  | .evaluate expression withReversePolish false =>
    answerEvaluate console errorConsole expression withReversePolish
  | .convert expression => answerConvert console errorConsole expression
  | .converse capacity => answerConverse console capacity lines

end Console

end Command

end Reckoner
