/-
  Reckoner/Proofs/Grammar.lean
  ============================
  **The infix language.**  What a user may write, what it stands for and how it
  may be laid out, all without a word about how the calculator reads it:

      E → E ('+' | '-') T | T
      T → T ('*' | '/') F | F
      F → ['-'] d | '(' E ')'         d → digit* ['.'] digit+

  A derivation tree is a `Formula`, whose index is the sort it derives from, so a
  tree that breaks precedence or groups from the right cannot be built.  Beside
  the tree stand its leaves in order (`leaves`), the texts that show them with
  any spaces between (`Spaced`), its post-order (`listing`) and its value.

  `Derives` is the same grammar over tokens whose signs have been fused, where a
  number is one token.
-/
import Reckoner.Operator
import Reckoner.Number.Double
import Reckoner.Number.Shortest
import Reckoner.Text.Digit
import Reckoner.Token

namespace Reckoner

open Reckoner.Number Reckoner.Text

/-! ### Literals -/

/-- A numeral of the shape `digit* ['.'] digit+`. -/
structure Lexeme where
  whole : List Char
  pointed : Bool
  last : List Char
  whole_digits : ∀ c ∈ whole, c.isDigit = true
  last_digits : ∀ c ∈ last, c.isDigit = true
  last_ne_nil : last ≠ []

namespace Lexeme

/-- A single row of digits, perhaps with a point in front. -/
def row (pointed : Bool) (digits : List Char) (h : ∀ c ∈ digits, c.isDigit = true)
    (hne : digits ≠ []) : Lexeme :=
  ⟨[], pointed, digits, nofun, h, hne⟩

/-- A single digit, perhaps with a point in front. -/
def digit (pointed : Bool) (c : Char) (hc : c.isDigit = true) : Lexeme :=
  row pointed [c] (fun b hb => by rwa [List.mem_singleton.mp hb]) (List.cons_ne_nil c [])

/-- The digits of a whole number. -/
def ofNat (n : Nat) : Lexeme :=
  row false (digitsOf n) (fun _ => Nat.isDigit_of_mem_toDigits (by decide) (by decide))
    Nat.toDigits_ne_nil

def chars (d : Lexeme) : List Char :=
  d.whole ++ ((if d.pointed then ['.'] else []) ++ d.last)

def text (d : Lexeme) : String := String.ofList d.chars

/-- The value of an ASCII digit. -/
def digitValue (c : Char) : Nat := c.toNat - '0'.toNat

/-- The decimal that a numeral denotes: the digits after the point, and only
    those, are places behind it. -/
def decimal (d : Lexeme) : Decimal where
  coefficient := ofDigits ((d.whole ++ d.last).map digitValue)
  exponent := if d.pointed then -(d.last.length : Int) else 0

/-- The double nearest to a numeral. -/
def value (d : Lexeme) : Float := d.decimal.toFloat

end Lexeme

/-- A numeral with or without a minus sign. -/
structure Literal where
  negative : Bool
  lexeme : Lexeme

namespace Literal

def chars (l : Literal) : List Char :=
  (if l.negative then ['-'] else []) ++ l.lexeme.chars

def text (l : Literal) : String := String.ofList l.chars

def value (l : Literal) : Float :=
  if l.negative then -l.lexeme.value else l.lexeme.value

end Literal

/-! ### Sorts and derivation trees -/

/-- The sorts of the grammar: E, T and F. -/
inductive Level where
  | sum
  | term
  | factor
deriving DecidableEq, Repr

/-- The sort that the right operand of an operator derives from. -/
def Level.tighter : Level → Level
  | .sum => .term
  | .term => .factor
  | .factor => .factor

/-- The sort whose rule an operator stands in. -/
def Operator.level : Operator → Level
  | .add => .sum
  | .subtract => .sum
  | .multiply => .term
  | .divide => .term

/-- A derivation tree of the grammar.  `operation` is both rules with an operator:
    `E → E op T` where the operator is of the sort E, and `T → T op F` where it is
    of the sort T. -/
inductive Formula : Level → Type where
  | literal (l : Literal) : Formula .factor
  | group (inner : Formula .sum) : Formula .factor
  | factor (f : Formula .factor) : Formula .term
  | term (t : Formula .term) : Formula .sum
  | operation (operator : Operator) (left : Formula operator.level)
      (right : Formula operator.level.tighter) : Formula operator.level

/-- A formula that is a literal and nothing else. -/
def Literal.formula (l : Literal) : Formula .sum := .term (.factor (.literal l))

/-! ### Leaves and layout -/

/-- A terminal of the grammar. -/
inductive Leaf where
  | number (d : Lexeme)
  | operator (op : Operator)
  | opening
  | closing

namespace Leaf

def text : Leaf → String
  | .number d => d.text
  | .operator op => op.symbol
  | .opening => "("
  | .closing => ")"

/-- The token that a terminal is. -/
def token : Leaf → Token
  | .number d => ⟨.number, d.text⟩
  | .operator op => ⟨.operator, op.symbol⟩
  | .opening => ⟨.leftParen, "("⟩
  | .closing => ⟨.rightParen, ")"⟩

end Leaf

/-- A sign is a leaf of its own, so spaces may stand behind it. -/
def Literal.leaves (l : Literal) : List Leaf :=
  (if l.negative then [.operator .subtract] else []) ++ [.number l.lexeme]

/-- Characters that show leaves in order, with any number of spaces in front of
    each of them and at the end. -/
inductive Spaced : List Leaf → List Char → Prop where
  | nil (spaces : Nat) : Spaced [] (List.replicate spaces ' ')
  | cons (spaces : Nat) (leaf : Leaf) {leaves : List Leaf} {cs : List Char} :
      Spaced leaves cs →
      Spaced (leaf :: leaves) (List.replicate spaces ' ' ++ (leaf.text.toList ++ cs))

/-- No spaces at all. -/
theorem Spaced.tight (leaves : List Leaf) : Spaced leaves (leaves.flatMap (·.text.toList)) := by
  induction leaves with
  | nil => exact .nil 0
  | cons leaf leaves ih => exact .cons 0 leaf ih

/-! ### What an operator gives -/

namespace Operator

@[simp] theorem ofText?_symbol (operator : Operator) :
    ofText? operator.symbol = some operator := by
  cases operator <;> rfl

/-- The rounded result of an operator. -/
def rounded : Operator → Float → Float → Float
  | .add, a, b => a + b
  | .subtract, a, b => a - b
  | .multiply, a, b => a * b
  | .divide, a, b => a / b

/-- The result of an operator on two numbers, or the one reason why there is none:
    a zero divisor of either sign, a result that is no finite number, a result
    outside the safe range, in this order. -/
def outcome (operator : Operator) (a b : Float) : Outcome Float :=
  if operator = .divide ∧ isZero b = true then fail .divisionByZero
  else if (operator.rounded a b).isFinite = false then fail .calculationError
  else if inSafeRange (operator.rounded a b) = false then fail .numberOutOfRange
  else .ok (operator.rounded a b)

theorem checkResult_eq (x : Float) :
    checkResult x =
      if x.isFinite = false then fail .calculationError
      else if inSafeRange x = false then fail .numberOutOfRange
      else .ok x := by
  cases hf : x.isFinite <;> cases hs : inSafeRange x <;> simp [checkResult, hf, hs]

theorem combine_eq_outcome (operator : Operator) (a b : Float) :
    operator.combine a b = operator.outcome a b := by
  cases operator with
  | divide =>
    by_cases hb : isZero b = true
    · simp only [combine, apply, outcome, hb, if_true, and_self]
      rfl
    · simp only [combine, apply, outcome, hb]
      exact checkResult_eq (a / b)
  | add => exact checkResult_eq (a + b)
  | subtract => exact checkResult_eq (a - b)
  | multiply => exact checkResult_eq (a * b)

theorem inSafeRange_of_outcome {operator : Operator} {a b x : Float}
    (h : operator.outcome a b = .ok x) : inSafeRange x = true := by
  rw [outcome] at h
  split at h
  · cases h
  · split at h
    · cases h
    · split at h
      · cases h
      · next hsafe =>
        cases h
        simpa using hsafe

end Operator

/-! ### Readings of a formula -/

namespace Formula

/-- The leaves of a tree, from left to right. -/
def leaves : {l : Level} → Formula l → List Leaf
  | _, .literal l => l.leaves
  | _, .group inner => .opening :: (inner.leaves ++ [.closing])
  | _, .factor f => f.leaves
  | _, .term t => t.leaves
  | _, .operation operator left right => left.leaves ++ .operator operator :: right.leaves

/-- The literals of a tree, from left to right. -/
def literals : {l : Level} → Formula l → List Literal
  | _, .literal l => [l]
  | _, .group inner => inner.literals
  | _, .factor f => f.literals
  | _, .term t => t.literals
  | _, .operation _ left right => left.literals ++ right.literals

/-- The post-order of a tree: both operands before their operator, no parentheses,
    a sign and its numeral in one. -/
def listing : {l : Level} → Formula l → List String
  | _, .literal l => [l.text]
  | _, .group inner => inner.listing
  | _, .factor f => f.listing
  | _, .term t => t.listing
  | _, .operation operator left right => left.listing ++ right.listing ++ [operator.symbol]

/-- The value of a tree: the left operand's first, then the right one's, then the
    operator's on both.  The first failure in this order is the failure. -/
def value : {l : Level} → Formula l → Outcome Float
  | _, .literal l => .ok l.value
  | _, .group inner => inner.value
  | _, .factor f => f.value
  | _, .term t => t.value
  | _, .operation operator left right => do
    let a ← left.value
    let b ← right.value
    operator.outcome a b

end Formula

/-! ### The grammar over tokens -/

/-- The tokens that derive from a sort when a number, signed or not, is one
    token. -/
inductive Derives : Level → List Token → Prop where
  | number {t : Token} : t.isNumber = true → Derives .factor [t]
  | group {opening closing : Token} {inner : List Token} :
      opening.kind = .leftParen → closing.kind = .rightParen → Derives .sum inner →
      Derives .factor (opening :: (inner ++ [closing]))
  | factor {ts : List Token} : Derives .factor ts → Derives .term ts
  | term {ts : List Token} : Derives .term ts → Derives .sum ts
  | operation (operator : Operator) {left right : List Token} :
      Derives operator.level left → Derives operator.level.tighter right →
      Derives operator.level (left ++ ⟨.operator, operator.symbol⟩ :: right)

end Reckoner
