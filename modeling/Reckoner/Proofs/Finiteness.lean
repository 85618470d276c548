/-
  Reckoner/Proofs/Finiteness.lean
  ===============================
  **Where a number stops being finite.**  Every number is checked before it goes
  onto the stack of the evaluator, so what an operator is applied to is finite and
  2^53 - 1 at most in magnitude.  Sums and differences of two such numbers are below
  2^54 and products below 2^106, far from where rounding overflows
  (`Operator.rounded_status`).  A quotient can overflow, and only by a divisor that is
  next to zero (`divisor_small`).  A zero divisor is refused before it is divided by,
  so no operation gives what is no number.

  The failure of kind `calculationError` stands for a result that is not finite.  It
  is therefore a failure of one division in a row of items, which the run can be cut
  at (`run_eq_error`).
-/
import Reckoner.Proofs.Interchange
import Reckoner.Proofs.Nearest

namespace Reckoner

open Reckoner.Number Reckoner.Text ReversePolish

/-! ### One operation -/

namespace Number

theorem isDouble_of_inSafeRange {x : Float} (h : inSafeRange x = true) :
    IsDouble x.toModel.unpack :=
  isDouble_unpack (isFinite_of_inSafeRange h)

theorem valueOf_ne_zero {x : Float} (hfinite : x.isFinite = true) (hzero : isZero x = false) :
    valueOf x ≠ 0 := by
  have hdouble := isDouble_unpack hfinite
  rw [isZero] at hzero
  rw [valueOf]
  generalize x.toModel.unpack = u at hdouble hzero
  cases hdouble with
  | zero s => cases hzero
  | @finite s m e h hm =>
    have hm' : (0 : ℚ) < m := by exact_mod_cast hm
    have hpos : (0 : ℚ) < m * 2 ^ e := by positivity
    rw [unpackedValue_finite, ← abs_pos, abs_signed]
    exact abs_pos_of_pos hpos

/-- What comes of rounding is a number, finite unless it is the rounded value of a
    large one. -/
theorem RoundsTo.status {q : ℚ} {u : Float.Model.UnpackedFloat} (h : RoundsTo q u) {x : Float}
    (hx : x.toModel = Float.Model.pack u) :
    x.isNaN = false ∧ (x.isFinite = false → 2 ^ 1023 ≤ |q|) := by
  rcases h.double hx with hnearest | ⟨hinfinite, hlarge⟩
  · refine ⟨not_isNaN (Or.inl hnearest.finite), fun hfails => ?_⟩
    rw [hnearest.finite] at hfails
    cases hfails
  · exact ⟨not_isNaN (Or.inr hinfinite), fun _ => hlarge⟩

/-- The divisor of a large quotient is small. -/
theorem divisor_small {a b : ℚ} (ha : |a| ≤ 2 ^ 53 - 1) (hb : b ≠ 0) (h : 2 ^ 1023 ≤ |a / b|) :
    |b| < 2 ^ (-970 : ℤ) := by
  have hb' : 0 < |b| := abs_pos.mpr hb
  rw [abs_div, le_div_iff₀ hb'] at h
  have hpow : (2 : ℚ) ^ 1023 * 2 ^ (-970 : ℤ) = 2 ^ 53 := by
    rw [← zpow_natCast, ← zpow_natCast, ← zpow_add₀ two_ne_zero]
    rfl
  refine lt_of_mul_lt_mul_left ?_ (by positivity : (0 : ℚ) ≤ 2 ^ 1023)
  rw [hpow]
  exact lt_of_le_of_lt (h.trans ha) (by norm_num)

end Number

namespace Operator

theorem apply_eq_ok {op : Operator} {a b x : Float} :
    op.apply a b = .ok x ↔ ¬ (op = .divide ∧ isZero b = true) ∧ op.rounded a b = x := by
  cases op with
  | divide => cases hzero : isZero b <;> simp [apply, rounded, hzero, fail]
  | _ => simp [apply, rounded]

/-- **What an operator gives on two numbers in the safe range** is a number, and finite
    unless it is a quotient by a divisor next to zero. -/
theorem rounded_status {op : Operator} {a b : Float} (ha : inSafeRange a = true)
    (hb : inSafeRange b = true) (hzero : ¬ (op = .divide ∧ isZero b = true)) :
    (op.rounded a b).isNaN = false ∧
      ((op.rounded a b).isFinite = false →
        op = .divide ∧ 0 < |valueOf b| ∧ |valueOf b| < 2 ^ (-970 : ℤ)) := by
  have hda := isDouble_of_inSafeRange ha
  have hdb := isDouble_of_inSafeRange hb
  have hmaxA := (inSafeRange_iff.mp ha).2
  have hmaxB := (inSafeRange_iff.mp hb).2
  -- an exact result this small does not overflow
  have hsmall : ∀ {x : Float} {q : ℚ}, x.isNaN = false ∧ (x.isFinite = false → 2 ^ 1023 ≤ |q|) →
      |q| ≤ 2 ^ 106 → x.isNaN = false ∧
        (x.isFinite = false → op = .divide ∧ 0 < |valueOf b| ∧ |valueOf b| < 2 ^ (-970 : ℤ)) := by
    intro x q hstatus hq
    refine ⟨hstatus.1, fun hfails => ?_⟩
    have hpow : (2 : ℚ) ^ 106 < 2 ^ 1023 := pow_lt_pow_right₀ (by norm_num) (by norm_num)
    exact absurd ((hstatus.2 hfails).trans hq) (not_le.mpr hpow)
  cases op with
  | add =>
    refine hsmall ((hda.add hdb).status rfl) ?_
    calc |valueOf a + valueOf b| ≤ |valueOf a| + |valueOf b| := abs_add_le _ _
      _ ≤ 2 ^ 106 := by linarith
  | subtract =>
    refine hsmall ((hda.sub hdb).status rfl) ?_
    calc |valueOf a - valueOf b| ≤ |valueOf a| + |valueOf b| := abs_sub _ _
      _ ≤ 2 ^ 106 := by linarith
  | multiply =>
    refine hsmall ((hda.mul hdb).status rfl) ?_
    calc |valueOf a * valueOf b| = |valueOf a| * |valueOf b| := abs_mul _ _
      _ ≤ 2 ^ 53 * 2 ^ 53 := by gcongr <;> linarith
      _ = 2 ^ 106 := by norm_num
  | divide =>
    have hne := valueOf_ne_zero (isFinite_of_inSafeRange hb) (by simpa using hzero)
    obtain ⟨hnumber, hlarge⟩ := (hda.div hdb hne).status (x := a / b) rfl
    refine ⟨hnumber, fun hfails => ⟨rfl, abs_pos.mpr hne, ?_⟩⟩
    exact divisor_small hmaxA hne (hlarge hfails)

/-- The one reason for a calculation error is a result that is not finite. -/
theorem not_isFinite_of_outcome {op : Operator} {a b : Float} {failure : Failure}
    (h : op.outcome a b = .error failure) (hkind : failure.kind = .calculationError) :
    ¬ (op = .divide ∧ isZero b = true) ∧ (op.rounded a b).isFinite = false := by
  rw [outcome] at h
  split at h
  · cases h
    cases hkind
  · next hzero =>
    refine ⟨hzero, ?_⟩
    split at h
    · assumption
    · split at h
      · cases h
        cases hkind
      · cases h

end Operator

/-! ### One step and a run -/

namespace ReversePolish

/-- What goes onto the stack has been checked, as an operand or as a result. -/
theorem step_inSafeRange {stack stack' : List Float} {item : String}
    (hstack : ∀ x ∈ stack, inSafeRange x = true) (h : step stack item = .ok stack') :
    ∀ x ∈ stack', inSafeRange x = true := by
  rw [step] at h
  cases hop : Operator.ofText? item with
  | some op =>
    simp only [hop] at h
    rcases stack with _ | ⟨b, _ | ⟨a, below⟩⟩
    · cases h
    · cases h
    · rw [reduce, Operator.combine_eq_outcome] at h
      obtain ⟨x, hx, rfl⟩ := Outcome.map_eq_ok.mp h
      intro y hy
      rcases List.mem_cons.mp hy with rfl | hy
      · exact Operator.inSafeRange_of_outcome hx
      · exact hstack y (by simp [hy])
  | none =>
    simp only [hop] at h
    split at h
    · obtain ⟨x, hx, rfl⟩ := Outcome.map_eq_ok.mp h
      intro y hy
      rcases List.mem_cons.mp hy with rfl | hy
      · exact (checkOperand_eq_ok.mp hx).2
      · exact hstack y hy
    · cases h

/-- **All numbers on the stack are in the safe range**, whatever has been read. -/
theorem run_inSafeRange {items : List String} : ∀ {stack stack' : List Float},
    (∀ x ∈ stack, inSafeRange x = true) → run stack items = .ok stack' →
      ∀ x ∈ stack', inSafeRange x = true := by
  induction items with
  | nil =>
    intro stack stack' hstack h
    cases h
    exact hstack
  | cons item items ih =>
    intro stack stack' hstack h
    rw [run_cons] at h
    obtain ⟨next, hnext, h⟩ := Outcome.bind_eq_ok.mp h
    exact ih (step_inSafeRange hstack hnext) h

/-- A run that fails does so at one of its items. -/
theorem run_eq_error {items : List String} {failure : Failure} : ∀ {stack : List Float},
    run stack items = .error failure →
      ∃ before item after next, items = before ++ item :: after ∧
        run stack before = .ok next ∧ step next item = .error failure := by
  induction items with
  | nil =>
    intro stack h
    cases h
  | cons item items ih =>
    intro stack h
    rw [run_cons] at h
    cases hnext : step stack item with
    | error failure' =>
      rw [hnext] at h
      cases h
      exact ⟨[], item, items, stack, rfl, rfl, hnext⟩
    | ok next =>
      rw [hnext] at h
      obtain ⟨before, last, after, stack', rfl, hrun, hfails⟩ := ih h
      refine ⟨item :: before, last, after, stack', rfl, ?_, hfails⟩
      rw [run_cons, hnext]
      exact hrun

theorem checkOperand_failsOnly (text : String) :
    Outcome.FailsOnly [.numberOutOfRange] (checkOperand text) := by
  rw [checkOperand]
  split
  · exact .ok _ _
  · exact .fail (by decide)

/-- Nothing but an operator comes to a calculation error. -/
theorem step_calculationError {stack : List Float} {item : String} {failure : Failure}
    (h : step stack item = .error failure) (hkind : failure.kind = .calculationError) :
    ∃ op a b below, item = Operator.symbol op ∧ stack = b :: a :: below ∧
      op.outcome a b = .error failure := by
  rw [step] at h
  cases hop : Operator.ofText? item with
  | some op =>
    have hitem : op.symbol = item := by simpa using List.find?_some hop
    simp only [hop] at h
    rcases stack with _ | ⟨b, _ | ⟨a, below⟩⟩
    · cases h
      cases hkind
    · cases h
      cases hkind
    · rw [reduce, Operator.combine_eq_outcome] at h
      exact ⟨op, a, b, below, hitem.symm, rfl, Outcome.map_eq_error.mp h⟩
  | none =>
    simp only [hop] at h
    split at h
    · obtain ⟨kind, hmem, rfl⟩ := checkOperand_failsOnly item failure (Outcome.map_eq_error.mp h)
      obtain rfl : kind = .numberOutOfRange := by simpa using hmem
      cases hkind
    · cases h
      rw [Failure.invalidToken_eq] at hkind
      cases hkind

end ReversePolish

/-! ### Evaluations -/

/-- The numbers on the stack once some of the items of a text have been read. -/
def StackOf (text : String) (stack : List Float) : Prop :=
  ∃ before after, words text = before ++ after ∧ run [] before = .ok stack

/-- An operation of an evaluation: its operator is read, and its operands are the
    topmost numbers on the stack. -/
def Performs (text : String) (op : Operator) (a b : Float) : Prop :=
  ∃ before after below, words text = before ++ op.symbol :: after ∧
    run [] before = .ok (b :: a :: below)

/-- An evaluation comes to a division whose quotient is not finite, because its
    divisor is next to zero. -/
def DividesByTiny (text : String) : Prop :=
  ∃ a b, Performs text .divide a b ∧ (a / b).isFinite = false ∧
    0 < |valueOf b| ∧ |valueOf b| < 2 ^ (-970 : ℤ)

variable {text : String}

theorem Performs.inSafeRange {op : Operator} {a b : Float} (h : Performs text op a b) :
    inSafeRange a = true ∧ inSafeRange b = true := by
  obtain ⟨before, after, below, -, hrun⟩ := h
  have hsafe := run_inSafeRange (by simp) hrun
  exact ⟨hsafe a (by simp), hsafe b (by simp)⟩

theorem inSafeRange_of_evaluate {x : Float} (h : evaluate text = .ok x) :
    inSafeRange x = true := by
  obtain ⟨tree, -, hvalue⟩ := evaluateItems_eq_ok.mp h
  exact tree.inSafeRange_value hvalue

/-- A calculation error is the failure of a division by a number next to zero. -/
theorem dividesByTiny_of_evaluate {failure : Failure} (h : evaluate text = .error failure)
    (hkind : failure.kind = .calculationError) : DividesByTiny text := by
  rw [evaluate, evaluateItems] at h
  cases hrun : run [] (words text) with
  | ok stack =>
    rw [hrun, Outcome.ok_bind] at h
    split at h
    · cases h
    · cases h
      cases hkind
  | error failure' =>
    rw [hrun] at h
    cases h
    obtain ⟨before, item, after, stack, hwords, hbefore, hfails⟩ := run_eq_error hrun
    obtain ⟨op, a, b, below, rfl, rfl, hop⟩ := step_calculationError hfails hkind
    have hperforms : Performs text op a b := ⟨before, after, below, hwords, hbefore⟩
    obtain ⟨ha, hb⟩ := hperforms.inSafeRange
    obtain ⟨hzero, hfinite⟩ := Operator.not_isFinite_of_outcome hop hkind
    obtain ⟨rfl, hpos, htiny⟩ := (Operator.rounded_status ha hb hzero).2 hfinite
    exact ⟨a, b, hperforms, hfinite, hpos, htiny⟩

/-- **Only division leads out of the finite numbers.**  At every step of an evaluation
    all numbers on the stack are finite and 2^53 - 1 at most in magnitude, and so is
    every value that comes of it.  No operation gives what is no number, and a sum, a
    difference or a product is finite.  A calculation error therefore comes of a
    division by a number next to zero; that a calculation could fail in any other
    way than by an outcome of its steps is ruled out. -/
theorem nonfinite_only_from_division (text : String) :
    (∀ stack, StackOf text stack → ∀ x ∈ stack, Safe x) ∧
    (∀ x, evaluate text = .ok x ∨ calculate text = .ok x → Safe x) ∧
    (∀ op a b x, Performs text op a b → op.apply a b = .ok x →
      x.isNaN = false ∧ (op ≠ .divide → x.isFinite = true)) ∧
    (∀ failure, evaluate text = .error failure → failure.kind = .calculationError →
      DividesByTiny text) ∧
    (∀ failure, calculate text = .error failure → failure.kind = .calculationError →
      ∃ polish, toReversePolish text = .ok polish ∧ DividesByTiny polish) ∧
    Guarded.calculate text = .reached (calculate text) := by
  refine ⟨?_, ?_, ?_, ?_, ?_, Guarded.calculate_eq text⟩
  · rintro stack ⟨before, after, -, hrun⟩ x hx
    exact inSafeRange_iff.mp (run_inSafeRange (by simp) hrun x hx)
  · rintro x (h | h)
    · exact inSafeRange_iff.mp (inSafeRange_of_evaluate h)
    · exact inSafeRange_iff.mp (inSafeRange_of_calculate h)
  · intro op a b x hperforms happly
    obtain ⟨ha, hb⟩ := hperforms.inSafeRange
    obtain ⟨hzero, rfl⟩ := Operator.apply_eq_ok.mp happly
    obtain ⟨hnumber, hfinite⟩ := Operator.rounded_status ha hb hzero
    refine ⟨hnumber, fun hop => ?_⟩
    cases hx : (op.rounded a b).isFinite with
    | true => rfl
    | false => exact absurd (hfinite hx).1 hop
  · intro failure h hkind
    exact dividesByTiny_of_evaluate h hkind
  · intro failure h hkind
    rw [calculate] at h
    cases hpolish : toReversePolish text with
    | ok polish =>
      rw [hpolish, Outcome.ok_bind] at h
      exact ⟨polish, rfl, dividesByTiny_of_evaluate h hkind⟩
    | error failure' =>
      rw [hpolish] at h
      cases h
      obtain ⟨kind, hmem, rfl⟩ := toReversePolish_failsOnly text failure hpolish
      obtain rfl : kind = .calculationError := hkind
      exact absurd hmem (by decide)

/-- Dividing by a subnormal number overflows. -/
theorem nonfinite_only_from_division_subnormal : DividesByTiny "1 1e-320 /" := by
  obtain ⟨-, -, -, hfails, -, -⟩ := nonfinite_only_from_division "1 1e-320 /"
  exact hfails (.of .calculationError) (by decide +kernel) rfl

end Reckoner
