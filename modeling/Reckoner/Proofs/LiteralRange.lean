/-
  Reckoner/Proofs/LiteralRange.lean
  =================================
  **Where literals stop.**  The range of a literal is tested on the double that it is
  read as, so the boundary is not 2^53 - 1 itself.  What lies below the midpoint
  2^53 - 1/2 is rounded to 2^53 - 1 at most; the midpoint and all above is rounded
  to 2^53 or more, the midpoint because the significand of 2^53 - 1 is odd
  (`Rounded.le_safe_iff`).

  A literal may have any number of digits before the point, zeros in front, and
  digits behind the point.  Its exact value (`Lexeme.exactValue`) is all that
  matters.
-/
import Reckoner.Proofs.Nearest
import Reckoner.Proofs.Negation

namespace Reckoner

open Reckoner.Number Reckoner.Text

/-! ### The boundary of the safe range -/

namespace Number

/-- **A rounded magnitude is 2^53 - 1 at most if and only if it was below the midpoint**
    to 2^53. -/
theorem Rounded.le_safe_iff {v : ℚ} {n : Nat} {t : Int} (h : Rounded v n t) :
    (n : ℚ) * 2 ^ t ≤ 2 ^ 53 - 1 ↔ v < 2 ^ 53 - 1 / 2 := by
  have hlt := h.lt_iff (k := 0) (by norm_num)
  rw [zpow_zero, mul_one, mul_one] at hlt
  rw [← hlt]
  constructor
  · intro hle
    linarith
  · intro hbelow
    rcases le_or_gt 0 t with hwhole | hfine
    · -- an integer
      obtain ⟨places, rfl⟩ := Int.eq_ofNat_of_zero_le hwhole
      rw [zpow_natCast] at hbelow ⊢
      have hsucc : n * 2 ^ places + 1 ≤ 2 ^ 53 := Nat.succ_le_of_lt (by exact_mod_cast hbelow)
      have hcast : (n : ℚ) * 2 ^ places + 1 ≤ 2 ^ 53 := by exact_mod_cast hsucc
      linarith
    · -- below 2^52
      have hhalf := two_zpow_mul_two_le hfine
      rw [zpow_zero] at hhalf
      have hn : (n : ℚ) ≤ 2 ^ 53 := by exact_mod_cast h.le
      calc (n : ℚ) * 2 ^ t ≤ 2 ^ 53 * 2 ^ t := by gcongr
        _ ≤ 2 ^ 53 - 1 := by linarith

/-- **A double that comes of rounding `q` is in the safe range** if and only if `q` is
    below the midpoint. -/
theorem RoundsTo.inSafeRange_iff {q : ℚ} {u : Float.Model.UnpackedFloat} (h : RoundsTo q u)
    {x : Float} (hx : x.toModel = Float.Model.pack u) :
    inSafeRange x = true ↔ |q| < 2 ^ 53 - 1 / 2 := by
  rcases h.pack with ⟨-, hkept⟩ | ⟨hlarge, s, hinfinite⟩
  · have hfinite : x.isFinite = true := by
      show x.toModel.unpack.isFinite = true
      rw [hx, hkept]
      exact h.isFinite
    obtain ⟨s, v, n, t, rfl, hrounded, hu⟩ := h
    have hvalue : |valueOf x| = n * 2 ^ t := by
      rw [valueOf, hx, hkept, hu, unpackedValue_normalForm, abs_signed]
      exact abs_of_nonneg (by positivity)
    rw [Number.inSafeRange_iff, Safe, hvalue, abs_signed, abs_of_nonneg hrounded.nonneg,
      and_iff_right hfinite]
    exact hrounded.le_safe_iff
  · have houtside : inSafeRange x ≠ true := by
      rw [inSafeRange_eq, hx, hinfinite]
      exact Bool.false_ne_true
    have hpow : (2 : ℚ) ^ 53 - 1 / 2 < 2 ^ 1023 :=
      lt_trans (by norm_num : (2 : ℚ) ^ 53 - 1 / 2 < 2 ^ 53)
        (pow_lt_pow_right₀ (by norm_num) (by norm_num))
    exact iff_of_false houtside
      (not_lt.mpr (hpow.le.trans (pow_le_overflowPoint.trans hlarge)))

end Number

/-! ### Literals -/

namespace Lexeme

/-- The number that a row of digits is. -/
def size (digits : List Char) : Nat := ofDigits (digits.map digitValue)

/-- The exact value of a numeral: the digits before the point, and behind it as many
    places as there are digits. -/
def exactValue (d : Lexeme) : ℚ :=
  if d.pointed then size d.whole + size d.last / 10 ^ d.last.length
  else size (d.whole ++ d.last)

/-- Digits that follow a number move it to the left. -/
theorem foldl_digits (digits : List Nat) (start : Nat) :
    digits.foldl (fun value digit => 10 * value + digit) start =
      start * 10 ^ digits.length + ofDigits digits := by
  induction digits generalizing start with
  | nil => simp [ofDigits]
  | cons d digits ih =>
    have hfirst : ofDigits (d :: digits) = d * 10 ^ digits.length + ofDigits digits := by
      rw [ofDigits, List.foldl_cons, ih, Nat.mul_zero, Nat.zero_add]
    rw [List.foldl_cons, ih, hfirst, List.length_cons, pow_succ]
    ring

theorem size_append (xs ys : List Char) : size (xs ++ ys) = size xs * 10 ^ ys.length + size ys := by
  rw [size, List.map_append, ofDigits, List.foldl_append, foldl_digits, List.length_map]
  rfl

/-- The decimal that a numeral is read as has its exact value. -/
theorem exactValue_decimal (d : Lexeme) : d.decimal.exactValue = d.exactValue := by
  rw [Decimal.exactValue, decimal, exactValue]
  cases d.pointed with
  | false => simp [size]
  | true =>
    have happend := size_append d.whole d.last
    rw [size] at happend
    have hten : (10 : ℚ) ^ d.last.length ≠ 0 := by positivity
    simp only [if_true, happend, zpow_neg, zpow_natCast]
    push_cast
    field_simp

theorem exactValue_nonneg (d : Lexeme) : 0 ≤ d.exactValue := by
  rw [exactValue]
  split <;> positivity

theorem exponent_nonpos (d : Lexeme) : d.decimal.exponent ≤ 0 := by
  rw [decimal]
  cases d.pointed <;> simp

/-- A numeral is read as its exact value, rounded once. -/
theorem roundsTo_value (d : Lexeme) :
    ∃ u, RoundsTo d.exactValue u ∧ d.value.toModel = Float.Model.pack u := by
  refine ⟨_, ?_, rfl⟩
  rw [← d.exactValue_decimal]
  exact roundsTo_ofScientific _ (le_trans d.exponent_nonpos (by norm_num))

theorem inSafeRange_value_iff (d : Lexeme) :
    inSafeRange d.value = true ↔ d.exactValue < 2 ^ 53 - 1 / 2 := by
  obtain ⟨u, hrounds, hmodel⟩ := d.roundsTo_value
  rw [hrounds.inSafeRange_iff hmodel, abs_of_nonneg d.exactValue_nonneg]

theorem nearest_value (d : Lexeme) (h : inSafeRange d.value = true) :
    Nearest d.exactValue d.value := by
  obtain ⟨u, hrounds, hmodel⟩ := d.roundsTo_value
  exact hrounds.nearest_of_isFinite hmodel (isFinite_of_inSafeRange h)

/-- **The boundary of literals is the midpoint 2^53 - 1/2.**  Below it a literal has
    the double nearest to its exact value, and with a minus in front the negative of
    that double; from the midpoint on it fails, with a minus in front and without. -/
theorem literal_boundary (d : Lexeme) :
    (d.exactValue < 2 ^ 53 - 1 / 2 →
      ∃ x, calculate d.text = .ok x ∧ calculate ("-" ++ d.text) = .ok (-x) ∧
        Nearest d.exactValue x) ∧
    (2 ^ 53 - 1 / 2 ≤ d.exactValue →
      (∃ failure, calculate d.text = .error failure) ∧
        ∃ failure, calculate ("-" ++ d.text) = .error failure) := by
  constructor
  · intro hbelow
    have hsafe := d.inSafeRange_value_iff.mpr hbelow
    refine ⟨d.value, ?_, ?_, d.nearest_value hsafe⟩
    · rw [d.text_eq, calculate_literal, if_pos hsafe]
      rfl
    · rw [d.minus_append_text, calculate_literal, if_pos hsafe]
      rfl
  · intro hfrom
    have houtside : ¬ inSafeRange d.value = true := fun hsafe =>
      absurd (d.inSafeRange_value_iff.mp hsafe) (not_lt.mpr hfrom)
    have hfails : ∀ l : Literal, l.lexeme = d → ∃ failure, calculate l.text = .error failure := by
      rintro l rfl
      rw [calculate_literal, if_neg houtside]
      split
      · exact ⟨_, rfl⟩
      · exact ⟨_, rfl⟩
    rw [d.minus_append_text, d.text_eq]
    exact ⟨hfails ⟨false, d⟩ rfl, hfails ⟨true, d⟩ rfl⟩

theorem limit_digits : ∀ c ∈ "9007199254740991".toList, c.isDigit = true :=
  List.all_eq_true.mp (by decide)

/-- The digits of 2^53 - 1, and one digit behind the point. -/
def behindLimit (c : Char) (hc : c.isDigit = true) : Lexeme :=
  { digit true c hc with whole := "9007199254740991".toList, whole_digits := limit_digits }

theorem exactValue_behindLimit (c : Char) (hc : c.isDigit = true) :
    (behindLimit c hc).exactValue = 2 ^ 53 - 1 + digitValue c / 10 := by
  have hwhole : size "9007199254740991".toList = 9007199254740991 := by decide +kernel
  have hlast : size [c] = digitValue c := by simp [size, ofDigits]
  have hvalue : (behindLimit c hc).exactValue =
      (size "9007199254740991".toList : ℚ) + size [c] / 10 ^ 1 := rfl
  rw [hvalue, hwhole, hlast]
  norm_num

theorem literal_boundary_midpoint :
    (∃ x, calculate "9007199254740991.4" = .ok x ∧ calculate "-9007199254740991.4" = .ok (-x)) ∧
      (∃ failure, calculate "9007199254740991.5" = .error failure) ∧
        ∃ failure, calculate "-9007199254740991.5" = .error failure := by
  have htexts : (behindLimit '4' rfl).text = "9007199254740991.4" ∧
      (behindLimit '5' rfl).text = "9007199254740991.5" := by decide +kernel
  have hsigned : "-" ++ "9007199254740991.4" = "-9007199254740991.4" ∧
      "-" ++ "9007199254740991.5" = "-9007199254740991.5" := by decide +kernel
  have hdigits : digitValue '4' = 4 ∧ digitValue '5' = 5 := by decide
  obtain ⟨hbelow, -⟩ := literal_boundary (behindLimit '4' rfl)
  obtain ⟨-, hfrom⟩ := literal_boundary (behindLimit '5' rfl)
  rw [exactValue_behindLimit, htexts.1, hsigned.1, hdigits.1] at hbelow
  rw [exactValue_behindLimit, htexts.2, hsigned.2, hdigits.2] at hfrom
  obtain ⟨x, hplain, hminus, -⟩ := hbelow (by norm_num)
  exact ⟨⟨x, hplain, hminus⟩, hfrom (by norm_num)⟩

end Lexeme

end Reckoner
