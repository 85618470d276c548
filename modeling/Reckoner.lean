import Reckoner.Main
import Reckoner.Proofs.Grammar
import Reckoner.Proofs.Literal
import Reckoner.Proofs.Lexing
import Reckoner.Proofs.Signs
import Reckoner.Proofs.Order
import Reckoner.Proofs.Evaluation
import Reckoner.Proofs.Reading
import Reckoner.Proofs.Correctness
import Reckoner.Proofs.Stages
import Reckoner.Proofs.Parentheses
import Reckoner.Proofs.Offences
import Reckoner.Proofs.Departures
import Reckoner.Proofs.OperandCount
import Reckoner.Proofs.Rejection
import Reckoner.Proofs.Groups
import Reckoner.Proofs.Nesting
import Reckoner.Proofs.Coverage
import Reckoner.Proofs.LongestMatch
import Reckoner.Proofs.Spacing
import Reckoner.Proofs.Alphabet
import Reckoner.Proofs.Guards
import Reckoner.Proofs.Interchange
import Reckoner.Proofs.Negation
import Reckoner.Proofs.Fusion
import Reckoner.Proofs.ExactValue
import Reckoner.Proofs.Rounding
import Reckoner.Proofs.CorrectRounding
import Reckoner.Proofs.Nearest
import Reckoner.Proofs.RoundingOrder
import Reckoner.Proofs.Integers
import Reckoner.Proofs.Finiteness
import Reckoner.Proofs.LiteralRange
import Reckoner.Proofs.Printing
import Reckoner.Proofs.Display
import Reckoner.Proofs.Exactness
import Reckoner.Proofs.Retention
import Reckoner.Proofs.Acceptance
import Reckoner.Proofs.Items
import Reckoner.Proofs.Sessions
