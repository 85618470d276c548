/-
  Reckoner/Failure.lean
  =====================
  **Why a calculation fails.**  Every step of a calculation gives an outcome: a
  value, or a failure of one of eight kinds with a message for the user.  Each
  kind has a message of its own; a few failures carry a more telling one.

  Steps are chained with the bind of `Except`, so the first failure passes
  through unchanged.
-/
namespace Reckoner

inductive FailureKind
  | emptyExpression
  | invalidExpression
  | invalidNumber
  | numberOutOfRange
  | mismatchedParentheses
  | missingOperand
  | divisionByZero
  | calculationError
deriving DecidableEq, Repr

def FailureKind.name : FailureKind → String
  | .emptyExpression => "EmptyExpression"
  | .invalidExpression => "InvalidExpression"
  | .invalidNumber => "InvalidNumber"
  | .numberOutOfRange => "NumberOutOfRange"
  | .mismatchedParentheses => "MismatchedParentheses"
  | .missingOperand => "MissingOperand"
  | .divisionByZero => "DivisionByZero"
  | .calculationError => "CalculationError"

/-- The message of a kind where nothing more is known. -/
def FailureKind.message : FailureKind → String
  | .emptyExpression => "No expression to calculate"
  | .invalidExpression => "Invalid expression"
  | .invalidNumber => "Invalid number format"
  | .numberOutOfRange => "Number outside safe range"
  | .mismatchedParentheses => "Mismatched parentheses"
  | .missingOperand => "Missing operand"
  | .divisionByZero => "Cannot divide by zero"
  | .calculationError => "Calculation error"

structure Failure where
  kind : FailureKind
  message : String
deriving DecidableEq, Repr

def Failure.of (kind : FailureKind) : Failure :=
  ⟨kind, kind.message⟩

/-- The failure of a kind with a message of its own; an empty message says
    nothing, so the kind's message stands in for it. -/
def Failure.saying (kind : FailureKind) (message : String) : Failure :=
  if message.isEmpty then .of kind else ⟨kind, message⟩

/-- The failure that an item gives which is neither an operand nor an operator. -/
def Failure.invalidToken (text : String) : Failure :=
  .saying .invalidExpression ("invalid token: " ++ text)

abbrev Outcome := Except Failure

def fail {α : Type} (kind : FailureKind) : Outcome α :=
  .error (.of kind)

end Reckoner
