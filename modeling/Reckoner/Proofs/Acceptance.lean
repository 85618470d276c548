/-
  Reckoner/Proofs/Acceptance.lean
  ===============================
  **What a push answers.**  A push is asked for with two values of any kind, and four
  things can come of it (`push_verdict`):

    * it is granted, for a text with something in it and a number that is finite as a
      double, and the entry made of them is the newest of the history;
    * the expression is refused, whatever the result is, if it is no such text;
    * the result is refused if it is no number, or a double that is not finite;
    * there is no answer at all if the result is an integer that no double comes near.

  Only the first changes the history.  Which integers belong to the last is told by the
  overflow point of doubles: those from `integerLimit` on, of either sign
  (`isFinite_ofInt_iff`).
-/
import Reckoner.Proofs.Nearest
import Reckoner.Proofs.Retention

namespace Reckoner

open Reckoner.Number Reckoner.Text

/-! ### Integers as doubles -/

namespace Number

/-- The least positive integer that no double comes near. -/
def integerLimit : Int := 2 ^ 1024 - 2 ^ 970

theorem overflowPoint_eq : overflowPoint = (integerLimit : ℚ) := by
  have hcast : (integerLimit : ℚ) = 2 ^ (1024 : ℤ) - 2 ^ (970 : ℤ) := by
    rw [integerLimit, Int.cast_sub, Int.cast_pow, Int.cast_pow]
    rfl
  have hhigh : (2 : ℚ) ^ (1024 : ℤ) = 2 ^ (53 : ℤ) * 2 ^ (971 : ℤ) := by
    rw [← zpow_add₀ two_ne_zero]
    rfl
  have hlow : (2 : ℚ) ^ (971 : ℤ) = 2 ^ (970 : ℤ) * 2 := zpow_add_one₀ two_ne_zero 970
  rw [overflowPoint, hcast, hhigh, hlow]
  ring

/-- An integer has a double next to it if and only if it is below the limit. -/
theorem isFinite_ofInt_iff (i : Int) : (ofInt i).isFinite = true ↔ |i| < integerLimit := by
  obtain ⟨magnitude, hmagnitude⟩ : ∃ x, (Decimal.mk i.natAbs 0).toFloat = x := ⟨_, rfl⟩
  have hofInt : (ofInt i).isFinite = magnitude.isFinite := by
    rw [ofInt, hmagnitude]
    split
    · exact isFinite_neg magnitude
    · rfl
  have hrounds := roundsTo_ofScientific i.natAbs (e := 0) (by decide)
  rw [hofInt, hrounds.isFinite_iff (by rw [← hmagnitude]; rfl), overflowPoint_eq, zpow_zero,
    mul_one, Nat.abs_cast, Nat.cast_natAbs, Int.cast_lt]

end Number

/-! ### What can be kept -/

namespace Value

/-- A text with something in it. -/
def IsExpression (value : Value) : Prop :=
  ∃ text, value = .string text ∧ allBlank text = false

/-- A number that is finite as a double, and that double. -/
inductive IsFinite : Value → Float → Prop where
  | integer {i : Int} : |i| < integerLimit → IsFinite (.integer i) (ofInt i)
  | double {x : Float} : x.isFinite = true → IsFinite (.double x) x

/-- An integer that no double comes near. -/
inductive IsHuge : Value → Prop where
  | integer {i : Int} : integerLimit ≤ |i| → IsHuge (.integer i)

/-- What is said of a result that is refused. -/
def refusal : Value → String
  | .nothing => "Missing result"
  | .double _ => "Invalid result value"
  | _ => "Cannot add error results to history"

variable {value : Value} {x : Float}

theorem IsFinite.not_isHuge (h : value.IsFinite x) : ¬ value.IsHuge := by
  intro hhuge
  cases h with
  | integer hsmall =>
    cases hhuge with
    | integer hlarge => exact absurd hsmall (not_lt.mpr hlarge)
  | double hfinite => cases hhuge

end Value

namespace History

variable {expression result : Value} {text : String} {x : Float}

/-! ### What is accepted -/

theorem accept_of_not_isExpression (h : ¬ expression.IsExpression) :
    accept expression result =
      .ok (.error ⟨.invalidExpression, "Missing or invalid expression"⟩) := by
  cases expression with
  | string text =>
    have hblank : allBlank text = true := by
      rw [← Bool.not_eq_false]
      intro hshown
      exact h ⟨text, rfl, hshown⟩
    simp only [accept, hblank]
    rfl
  | _ => rfl

theorem accept_of_isFinite (hshown : allBlank text = false) (h : result.IsFinite x) :
    accept (.string text) result = .ok (.ok (strip text, x)) := by
  cases h with
  | @integer i hsmall =>
    have hfinite := (isFinite_ofInt_iff i).mpr hsmall
    have hkeep : accept.keep text (ofInt i) = .ok (strip text, ofInt i) := if_pos hfinite
    simp [accept, hshown, nearestDouble, hfinite, Except.map, hkeep]
  | double hfinite => simp [accept, accept.keep, hshown, hfinite]

theorem accept_of_isHuge (hshown : allBlank text = false) (h : result.IsHuge) :
    accept (.string text) result = .error .integerTooLarge := by
  cases h with
  | @integer i hlarge =>
    have hinfinite : ¬ (ofInt i).isFinite = true :=
      mt (isFinite_ofInt_iff i).mp (not_lt.mpr hlarge)
    simp [accept, hshown, nearestDouble, hinfinite, Except.map]

theorem accept_of_refused (hshown : allBlank text = false) (hfinite : ∀ x, ¬ result.IsFinite x)
    (hhuge : ¬ result.IsHuge) :
    accept (.string text) result = .ok (.error ⟨.invalidNumber, result.refusal⟩) := by
  cases result with
  | integer i =>
    rcases lt_or_ge |i| integerLimit with hsmall | hlarge
    · exact absurd (.integer hsmall) (hfinite _)
    · exact absurd (.integer hlarge) hhuge
  | double x =>
    have hinfinite : ¬ x.isFinite = true := fun h => hfinite x (.double h)
    simp only [accept, hshown, accept.keep, hinfinite]
    rfl
  | _ =>
    simp only [accept, hshown]
    rfl

/-! ### The verdict -/

/-- What a push makes of a history, and its reply. -/
inductive Verdict (history : History) (expression result : Value) (time : String) :
    History × Reply → Prop where
  | granted {text : String} {x : Float} : expression = .string text → allBlank text = false →
      result.IsFinite x →
      Verdict history expression result time
        (history.add ⟨strip text, x, time⟩, .outcome (.ok ()))
  | refusedExpression : ¬ expression.IsExpression →
      Verdict history expression result time
        (history, .outcome (.error ⟨.invalidExpression, "Missing or invalid expression"⟩))
  | refusedResult : expression.IsExpression → (∀ x, ¬ result.IsFinite x) → ¬ result.IsHuge →
      Verdict history expression result time
        (history, .outcome (.error ⟨.invalidNumber, result.refusal⟩))
  | huge : expression.IsExpression → result.IsHuge →
      Verdict history expression result time (history, .misuse .integerTooLarge)

theorem verdict_push (history : History) (expression result : Value) (time : String) :
    Verdict history expression result time (history.push expression result time) := by
  by_cases hexpression : expression.IsExpression
  · have hstring := hexpression
    obtain ⟨text, rfl, hshown⟩ := hstring
    by_cases hfinite : ∃ x, result.IsFinite x
    · obtain ⟨x, hx⟩ := hfinite
      rw [push, accept_of_isFinite hshown hx]
      exact .granted rfl hshown hx
    · by_cases hhuge : result.IsHuge
      · rw [push, accept_of_isHuge hshown hhuge]
        exact .huge hexpression hhuge
      · have hnone := not_exists.mp hfinite
        rw [push, accept_of_refused hshown hnone hhuge]
        exact .refusedResult hexpression hnone hhuge
  · rw [push, accept_of_not_isExpression hexpression]
    exact .refusedExpression hexpression

/-- **The verdict on a push**, for every history and every two values.

    It is granted exactly for an expression and a number that is finite as a double, and
    then the history gets the entry made of them.  A refusal is a failure that names the
    expression, if that is none, or else the result, and leaves the history as it was.
    The one thing that is not answered with an outcome is an integer that no double
    comes near; it leaves the history as it was, too. -/
theorem push_verdict (history : History) (expression result : Value) (time : String) :
    ((history.push expression result time).2 = .outcome (.ok ()) ↔
      expression.IsExpression ∧ ∃ x, result.IsFinite x) ∧
    ((history.push expression result time).2 =
        .outcome (.error ⟨.invalidExpression, "Missing or invalid expression"⟩) ↔
      ¬ expression.IsExpression) ∧
    ((history.push expression result time).2 =
        .outcome (.error ⟨.invalidNumber, result.refusal⟩) ↔
      expression.IsExpression ∧ (∀ x, ¬ result.IsFinite x) ∧ ¬ result.IsHuge) ∧
    ((∀ outcome, (history.push expression result time).2 ≠ .outcome outcome) ↔
      expression.IsExpression ∧ result.IsHuge) ∧
    ((history.push expression result time).2 = .outcome (.ok ()) →
      ∃ text x, expression = .string text ∧ result.IsFinite x ∧
        (history.push expression result time).1 = history.add ⟨strip text, x, time⟩) ∧
    ((history.push expression result time).2 ≠ .outcome (.ok ()) →
      (history.push expression result time).1 = history) := by
  have hverdict := verdict_push history expression result time
  generalize history.push expression result time = pushed at hverdict
  cases hverdict with
  | @granted text x htext hshown hx =>
    have hexpression : expression.IsExpression := ⟨text, htext, hshown⟩
    have hhuge := hx.not_isHuge
    have hfinite : ¬ ∀ x, ¬ result.IsFinite x := fun hnone => hnone x hx
    refine ⟨?_, ?_, ?_, ?_, ?_, ?_⟩
    · exact iff_of_true rfl ⟨hexpression, x, hx⟩
    · exact iff_of_false nofun (not_not.mpr hexpression)
    · exact iff_of_false nofun fun h => hfinite h.2.1
    · exact iff_of_false (fun h => h _ rfl) fun h => hhuge h.2
    · exact fun _ => ⟨text, x, htext, hx, rfl⟩
    · exact fun h => absurd rfl h
  | refusedExpression hnone =>
    refine ⟨?_, ?_, ?_, ?_, nofun, fun _ => rfl⟩
    · exact iff_of_false nofun fun h => hnone h.1
    · exact iff_of_true rfl hnone
    · exact iff_of_false nofun fun h => hnone h.1
    · exact iff_of_false (fun h => h _ rfl) fun h => hnone h.1
  | refusedResult hexpression hnone hhuge =>
    refine ⟨?_, ?_, ?_, ?_, nofun, fun _ => rfl⟩
    · exact iff_of_false nofun fun h => (not_exists.mpr hnone) h.2
    · exact iff_of_false nofun (not_not.mpr hexpression)
    · exact iff_of_true rfl ⟨hexpression, hnone, hhuge⟩
    · exact iff_of_false (fun h => h _ rfl) fun h => hhuge h.2
  | huge hexpression hhuge =>
    refine ⟨?_, ?_, ?_, ?_, nofun, fun _ => rfl⟩
    · exact iff_of_false nofun fun ⟨_, _, hx⟩ => hx.not_isHuge hhuge
    · exact iff_of_false nofun (not_not.mpr hexpression)
    · exact iff_of_false nofun fun h => h.2.2 hhuge
    · exact iff_of_true nofun ⟨hexpression, hhuge⟩

/-- A small integer is kept, and where there is no result nothing is. -/
theorem push_verdict_small :
    (∃ x, Value.IsFinite (.integer 3) x ∧
      ((empty 1).push (.string "1+2") (.integer 3) "now").1 = (empty 1).add ⟨"1+2", x, "now"⟩) ∧
    ((empty 1).push (.string "1+2") .nothing "now").1 = empty 1 := by
  obtain ⟨-, -, -, -, hkept, -⟩ := push_verdict (empty 1) (.string "1+2") (.integer 3) "now"
  obtain ⟨-, -, -, -, -, hleft⟩ := push_verdict (empty 1) (.string "1+2") .nothing "now"
  obtain ⟨text, x, htext, hx, hadded⟩ := hkept rfl
  cases htext
  exact ⟨⟨x, hx, hadded⟩, hleft nofun⟩

/-- The least integer that no double comes near is not answered with an outcome,
    although it is a result that cannot be kept. -/
theorem huge_integer_unanswered :
    (∀ x, ¬ Value.IsFinite (.integer integerLimit) x) ∧
      ∀ outcome, ((empty 10).push (.string "2") (.integer integerLimit) "now").2 ≠
        .outcome outcome := by
  have hhuge : Value.IsHuge (.integer integerLimit) := .integer (le_abs_self _)
  have hshown : allBlank "2" = false := by decide
  refine ⟨fun x hx => hx.not_isHuge hhuge, ?_⟩
  intro outcome hanswered
  rw [push, accept_of_isHuge hshown hhuge] at hanswered
  cases hanswered

end History

end Reckoner
