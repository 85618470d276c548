/-
  Reckoner/Proofs/Exactness.lean
  ==============================
  **Integer arithmetic is exact or refused.**  A formula of integers without a
  division has an exact value, and so has each of its parts.  As long as all of
  them are in the safe range the calculator's result is the exact one; as soon as
  one is not, the calculation fails for that reason.  It never goes on with a
  rounded number.

  The induction carries both halves at once: a part whose values are all in range
  gives a double that is its exact value, so its neighbours find integers to work
  on, and of an operation on integers it is known what it gives
  (`Operator.outcome_whole`).
-/
import Reckoner.Proofs.Correctness
import Reckoner.Proofs.Integers

namespace Reckoner

open Reckoner.Number

/-! ### Exact values -/

/-- The exact result of an operator on integers.  Only for `+`, `-` and `*` is it
    the one that the calculator aims at. -/
def Operator.exact : Operator → Int → Int → Int
  | .add, a, b => a + b
  | .subtract, a, b => a - b
  | .multiply, a, b => a * b
  | .divide, a, b => a / b

/-- The integer that a literal without a point denotes. -/
def Literal.exact (l : Literal) : Int :=
  if l.negative then -(l.lexeme.decimal.coefficient : Int) else l.lexeme.decimal.coefficient

namespace Formula

/-- All literals are written without a point, and nothing is divided. -/
def Integral : {level : Level} → Formula level → Prop
  | _, .literal l => l.lexeme.pointed = false
  | _, .group inner => inner.Integral
  | _, .factor f => f.Integral
  | _, .term t => t.Integral
  | _, .operation operator left right => operator ≠ .divide ∧ left.Integral ∧ right.Integral

/-- The exact value of a formula of integers. -/
def exact : {level : Level} → Formula level → Int
  | _, .literal l => l.exact
  | _, .group inner => inner.exact
  | _, .factor f => f.exact
  | _, .term t => t.exact
  | _, .operation operator left right => operator.exact left.exact right.exact

/-- The exact values of all parts of a formula, its own last. -/
def exactValues : {level : Level} → Formula level → List Int
  | _, .literal l => [l.exact]
  | _, .group inner => inner.exactValues
  | _, .factor f => f.exactValues
  | _, .term t => t.exactValues
  | _, .operation operator left right =>
    left.exactValues ++ right.exactValues ++ [operator.exact left.exact right.exact]

end Formula

/-! ### Literals and operators -/

theorem Literal.whole {l : Literal} (hpoint : l.lexeme.pointed = false)
    (hrange : intInSafeRange l.exact = true) : Whole l.value l.exact := by
  have hsize : l.exact.natAbs = l.lexeme.decimal.coefficient := by
    rw [exact]
    split <;> simp
  have hsmall := natAbs_lt_of_inSafeRange hrange
  have hdecimal : l.lexeme.decimal = ⟨l.lexeme.decimal.coefficient, 0⟩ := by
    simp [Lexeme.decimal, hpoint]
  have hmodel : l.lexeme.value.toModel = Float.Model.pack
      (.ofScientific Float.Model.Format.binary64 l.lexeme.decimal.coefficient 0) := by
    rw [Lexeme.value, hdecimal]
    rfl
  have hrounds := ofScientific_integer (n := l.lexeme.decimal.coefficient) (by omega)
  have hcoefficient : intInSafeRange (l.lexeme.decimal.coefficient : Int) = true := by
    rw [intInSafeRange, decide_eq_true_iff, Int.natAbs_natCast, ← hsize]
    exact of_decide_eq_true hrange
  have hwhole := (hrounds.double hmodel).2.2 hcoefficient
  rw [value, exact]
  split
  · exact hwhole.neg
  · exact hwhole

/-- **An operation on integers** gives the exact result, or it is refused because
    that result is out of range. -/
theorem Operator.outcome_whole {op : Operator} (hop : op ≠ .divide) {x y : Float} {a b : Int}
    (hx : Whole x a) (hy : Whole y b) :
    (intInSafeRange (op.exact a b) = true →
      ∃ z, op.outcome x y = .ok z ∧ Whole z (op.exact a b)) ∧
    (intInSafeRange (op.exact a b) = false → op.outcome x y = fail .numberOutOfRange) := by
  obtain ⟨hfinite, hrange, hwhole⟩ :
      (op.rounded x y).isFinite = true ∧
        inSafeRange (op.rounded x y) = intInSafeRange (op.exact a b) ∧
        (intInSafeRange (op.exact a b) = true → Whole (op.rounded x y) (op.exact a b)) := by
    cases op with
    | add => exact (IsInteger.add hx hy).double rfl
    | subtract => exact (IsInteger.sub hx hy).double rfl
    | multiply => exact (IsInteger.mul hx hy).double rfl
    | divide => exact absurd rfl hop
  have hzero : ¬ (op = .divide ∧ isZero y = true) := fun h => hop h.1
  rw [outcome, if_neg hzero, hfinite, hrange]
  constructor
  · intro hin
    rw [hin]
    exact ⟨_, rfl, hwhole hin⟩
  · intro hout
    rw [hout]
    rfl

/-! ### Formulas -/

namespace Formula

/-- **A formula of integers** has its exact value, or fails as soon as the value of
    one of its parts is out of range. -/
theorem value_integral {level : Level} (e : Formula level) (hintegral : e.Integral)
    (hliterals : ∀ l ∈ e.literals, intInSafeRange l.exact = true) :
    ((∀ v ∈ e.exactValues, intInSafeRange v = true) →
      ∃ x, e.value = .ok x ∧ Whole x e.exact) ∧
    ((∃ v ∈ e.exactValues, intInSafeRange v = false) → e.value = fail .numberOutOfRange) := by
  induction e with
  | literal l =>
    have hrange := hliterals l (by simp [literals])
    constructor
    · intro _
      exact ⟨l.value, rfl, Literal.whole hintegral hrange⟩
    · rintro ⟨v, hv, hout⟩
      rw [List.mem_singleton.mp hv, hrange] at hout
      cases hout
  | group inner ih => exact ih hintegral hliterals
  | factor f ih => exact ih hintegral hliterals
  | term t ih => exact ih hintegral hliterals
  | operation op left right ihl ihr =>
    obtain ⟨hop, hleft, hright⟩ := hintegral
    obtain ⟨hl, hr⟩ := List.forall_mem_append.mp hliterals
    obtain ⟨hleftOk, hleftFail⟩ := ihl hleft hl
    obtain ⟨hrightOk, hrightFail⟩ := ihr hright hr
    constructor
    · intro hall
      obtain ⟨x, hx, hxWhole⟩ := hleftOk fun v hv => hall v (by simp [exactValues, hv])
      obtain ⟨y, hy, hyWhole⟩ := hrightOk fun v hv => hall v (by simp [exactValues, hv])
      rw [value, hx, hy]
      exact (op.outcome_whole hop hxWhole hyWhole).1 (hall _ (by simp [exactValues]))
    · rintro ⟨v, hv, hout⟩
      -- the first failure is the left part's, then the right part's, then the operator's
      by_cases hl : ∃ v ∈ left.exactValues, intInSafeRange v = false
      · rw [value, hleftFail hl]
        rfl
      · have hlAll : ∀ v ∈ left.exactValues, intInSafeRange v = true := by simpa using hl
        obtain ⟨x, hx, hxWhole⟩ := hleftOk hlAll
        by_cases hr : ∃ v ∈ right.exactValues, intInSafeRange v = false
        · rw [value, hx, hrightFail hr]
          rfl
        · have hrAll : ∀ v ∈ right.exactValues, intInSafeRange v = true := by simpa using hr
          obtain ⟨y, hy, hyWhole⟩ := hrightOk hrAll
          have hlast : v = op.exact left.exact right.exact := by
            simp only [exactValues, List.mem_append, List.mem_singleton] at hv
            rcases hv with (hv | hv) | hv
            · exact absurd ⟨v, hv, hout⟩ hl
            · exact absurd ⟨v, hv, hout⟩ hr
            · exact hv
          rw [hlast] at hout
          rw [value, hx, hy]
          exact (op.outcome_whole hop hxWhole hyWhole).2 hout

theorem pointed_of_integral {level : Level} {e : Formula level} (h : e.Integral) :
    ∀ l ∈ e.literals, l.lexeme.pointed = false := by
  induction e with
  | literal l =>
    intro l' hl'
    rw [List.mem_singleton.mp hl']
    exact h
  | group inner ih => exact ih h
  | factor f ih => exact ih h
  | term t ih => exact ih h
  | operation op left right ihl ihr =>
    intro l hl
    rcases List.mem_append.mp hl with hl | hl
    · exact ihl h.2.1 l hl
    · exact ihr h.2.2 l hl

/-- **Integer arithmetic is exact or refused.**  If the exact values of all parts
    are in the safe range, the result is the exact value; if one is not, the
    calculation fails with a number out of range. -/
theorem integers_exact_or_refused (e : Formula .sum) (hintegral : e.Integral)
    (hliterals : ∀ l ∈ e.literals, intInSafeRange l.exact = true) (text : String)
    (h : Spaced e.leaves text.toList) :
    ((∀ v ∈ e.exactValues, intInSafeRange v = true) →
      ∃ x, calculate text = .ok x ∧ toInt? x = some e.exact) ∧
    ((∃ v ∈ e.exactValues, intInSafeRange v = false) →
      calculate text = fail .numberOutOfRange) := by
  have hsafe : ∀ l ∈ e.literals, inSafeRange l.value = true := fun l hl =>
    (Literal.whole (pointed_of_integral hintegral l hl) (hliterals l hl)).inSafeRange
  rw [calculate_of_spaced hsafe h]
  obtain ⟨hexact, hrefused⟩ := e.value_integral hintegral hliterals
  refine ⟨fun hall => ?_, hrefused⟩
  obtain ⟨x, hx, hwhole⟩ := hexact hall
  exact ⟨x, hx, hwhole.toInt?_eq⟩

/-- The largest safe integer and a digit to add to it. -/
def limitPlus (c : Char) (hc : c.isDigit = true) : Formula .sum :=
  .operation .add
    (.term (.factor (.literal ⟨false, .row false "9007199254740991".toList
      (List.all_eq_true.mp (by decide)) (by decide)⟩)))
    (.factor (.literal ⟨false, .digit false c hc⟩))

theorem integers_exact_or_refused_at_limit :
    (∃ x, calculate "9007199254740991+0" = .ok x ∧ toInt? x = some 9007199254740991) ∧
      calculate "9007199254740991+1" = fail .numberOutOfRange := by
  have hzero : Spaced (limitPlus '0' rfl).leaves "9007199254740991+0".toList := by
    have htext : "9007199254740991+0".toList =
        (limitPlus '0' rfl).leaves.flatMap (·.text.toList) := by decide +kernel
    rw [htext]
    exact .tight _
  have hone : Spaced (limitPlus '1' rfl).leaves "9007199254740991+1".toList := by
    have htext : "9007199254740991+1".toList =
        (limitPlus '1' rfl).leaves.flatMap (·.text.toList) := by decide +kernel
    rw [htext]
    exact .tight _
  obtain ⟨hexact, -⟩ := integers_exact_or_refused (limitPlus '0' rfl) ⟨by decide, rfl, rfl⟩
    (by decide +kernel) "9007199254740991+0" hzero
  obtain ⟨-, hrefused⟩ := integers_exact_or_refused (limitPlus '1' rfl) ⟨by decide, rfl, rfl⟩
    (by decide +kernel) "9007199254740991+1" hone
  have hvalue : (limitPlus '0' rfl).exact = 9007199254740991 := by decide +kernel
  rw [hvalue] at hexact
  exact ⟨hexact (by decide +kernel), hrefused (by decide +kernel)⟩

end Formula

end Reckoner
