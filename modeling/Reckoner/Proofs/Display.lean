/-
  Reckoner/Proofs/Display.lean
  ============================
  **Displayed results can be typed back in.**  What the calculator shows of a result is,
  down to 10^-4 in magnitude, an expression whose value is the same double again; of the
  two zeros both are shown as `0`.  Below, results are shown with an exponent, and the
  letter that marks it is no character of an expression (`displayed_reads_back`).

  A result is a zero, a whole number or a fraction.  A whole number is shown with all its
  digits, so its text has its exact value.  A fraction is shown as its shortest decimal,
  which has another exact value but the same double.  In which of the two forms that
  decimal is written is decided by its own value, not by the value of the double; that
  both are on the same side of 10^-4 is `exactValue_shortest_lt_iff`.
-/
import Reckoner.Proofs.Alphabet
import Reckoner.Proofs.Printing

namespace Reckoner

open Float.Model Reckoner.Number Reckoner.Text

/-! ### The boundary between the two forms -/

namespace Number

/-- The double nearest to 10^-4. -/
def tenThousandth : Float := (Decimal.mk 1 (-4)).toFloat

theorem unpack_tenThousandth : tenThousandth.toModel.unpack =
    .finite .positive 7378697629483821 (-66) (by decide) := by
  rfl

theorem valueOf_tenThousandth : valueOf tenThousandth = 7378697629483821 * 2 ^ (-66 : ℤ) := by
  rw [valueOf, unpack_tenThousandth, unpackedValue_finite]
  norm_num [signed]

theorem shortest_tenThousandth : shortest 7378697629483821 (-66) (by decide) = ⟨1, -4⟩ := by
  decide +kernel

/-- **The shortest decimal of a double is below 10^-4 if and only if the double is below
    the one nearest to it.** -/
theorem exactValue_shortest_lt_iff {x : Float} {m : Nat} {e : Int} {hm : 0 < m}
    (hx : x.toModel.unpack = .finite .positive m e hm) :
    (shortest m e hm).exactValue < 10 ^ (-4 : ℤ) ↔ valueOf x < valueOf tenThousandth := by
  have hpower : (Decimal.mk 1 (-4)).exactValue = 10 ^ (-4 : ℤ) := by
    rw [Decimal.exactValue, Nat.cast_one, one_mul]
  have hfinite := isFinite_of_unpack hx
  have hlimit := isFinite_of_unpack unpack_tenThousandth
  have hreads := toFloat_shortest hx
  have hpos := valueOf_pos hx
  have hpos' := valueOf_pos unpack_tenThousandth
  rw [← hpower]
  constructor
  · intro hless
    have hle := Decimal.abs_valueOf_mono (by rw [hreads]; exact hfinite) hlimit hless.le
    rw [hreads, abs_of_pos hpos] at hle
    refine lt_of_le_of_ne (hle.trans_eq (abs_of_pos hpos')) fun heq => ?_
    -- the shortest decimal of the double nearest to 10^-4 is 10^-4
    obtain rfl : x = tenThousandth := eq_of_valueOf_eq hfinite hlimit heq hpos.ne'
    rw [unpack_tenThousandth] at hx
    injection hx with _ hm' he'
    subst hm' he'
    rw [shortest_tenThousandth] at hless
    exact lt_irrefl _ hless
  · intro hless
    by_contra hge
    have hle := Decimal.abs_valueOf_mono hlimit (by rw [hreads]; exact hfinite) (not_lt.mp hge)
    rw [hreads, abs_of_pos hpos] at hle
    exact absurd (hle.trans_lt hless) (not_lt.mpr (le_abs_self _))

end Number

/-! ### Literals that read back -/

/-- A numeral with a sign in front, if it is negative. -/
def Literal.signed (s : UnpackedFloat.Sign) (d : Lexeme) : Literal where
  negative := match s with
    | .positive => false
    | .negative => true
  lexeme := d

theorem Literal.text_signed (s : UnpackedFloat.Sign) (d : Lexeme) :
    (Literal.signed s d).text = signText s ++ String.ofList d.chars := by
  cases s with
  | positive => exact (String.empty_append).symm
  | negative => exact String.ofList_append

theorem Lexeme.chars_ofNat (n : Nat) : (Lexeme.ofNat n).chars = digitsOf n := rfl

theorem Lexeme.exactValue_ofNat (n : Nat) : (Lexeme.ofNat n).exactValue = n := by
  show (size (digitsOf n) : ℚ) = n
  rw [size_digitsOf]

/-- A numeral is read as the double that its exact value is rounded to. -/
theorem Lexeme.value_eq {d : Lexeme} {x : Float} (h : RoundsTo d.exactValue x.toModel.unpack)
    (hne : d.exactValue ≠ 0) : d.value = x := by
  rw [← d.exactValue_decimal] at h hne
  exact Decimal.toFloat_eq (d.exponent_nonpos.trans (by norm_num)) h hne

section Results

variable {v : Float} {s : UnpackedFloat.Sign} {m : Nat} {e : Int} {hm : 0 < m}

/-- The same number with the sign taken off. -/
theorem exists_magnitude (hv : v.toModel.unpack = .finite s m e hm) :
    ∃ x : Float, x.toModel.unpack = .finite .positive m e hm ∧ inSafeRange x = inSafeRange v ∧
      valueOf x = |valueOf v| := by
  have habs : |valueOf v| = m * 2 ^ e := by
    rw [valueOf, hv]
    exact abs_unpackedValue
  cases s with
  | positive =>
    refine ⟨v, hv, rfl, ?_⟩
    rw [habs, valueOf, hv]
    rfl
  | negative =>
    have hneg : (-v).toModel.unpack = .finite .positive m e hm := by
      rw [unpack_neg, hv]
      rfl
    refine ⟨-v, hneg, inSafeRange_neg v, ?_⟩
    rw [habs, valueOf, hneg]
    rfl

/-- **A numeral that is read as the magnitude of a result**, with the sign of the result, is
    an expression with that result. -/
theorem calculate_signed {x : Float} {d : Lexeme} (hv : v.toModel.unpack = .finite s m e hm)
    (hx : x.toModel.unpack = .finite .positive m e hm) (hsafe : inSafeRange v = true)
    (hd : d.value = x) : calculate (signText s ++ String.ofList d.chars) = .ok v := by
  have hvalue : (Literal.signed s d).value = v := by
    apply eq_of_unpack_eq
    cases s with
    | positive =>
      show d.value.toModel.unpack = v.toModel.unpack
      rw [hd, hx, hv]
    | negative =>
      show (-d.value).toModel.unpack = v.toModel.unpack
      rw [unpack_neg, hd, hx, hv]
      rfl
  rw [← Literal.text_signed, calculate_literal, if_pos, hvalue]
  have hrange := (Literal.signed s d).inSafeRange_value
  rw [hvalue, hsafe] at hrange
  exact hrange.symm

/-! ### Zeros and whole numbers -/

theorem calculate_displayed_zero (hv : v.toModel.unpack = .zero s) :
    ∃ y, calculate (displayed v) = .ok y ∧ (y == v) = true := by
  have hzero : toInt? v = some 0 := by
    rw [toInt?, hv]
  have htext : displayed v = "0" := by
    rw [displayed, hzero]
    rfl
  refine ⟨0.0, ?_, ?_⟩
  · rw [htext]
    decide +kernel
  · show (UnpackedFloat.beq _ v.toModel.unpack) = true
    rw [hv]
    rfl

/-- The size of a whole number is its exact value. -/
theorem wholeSize?_eq_some {size : Nat} (h : wholeSize? m e = some size) :
    (size : ℚ) = m * 2 ^ e := by
  rw [wholeSize?] at h
  split at h
  · next hnonneg =>
    obtain ⟨k, rfl⟩ := Int.eq_ofNat_of_zero_le hnonneg
    cases h
    simp
  · next hneg =>
    obtain ⟨k, rfl⟩ : ∃ k : Nat, e = -(k : Int) := ⟨(-e).toNat, by omega⟩
    simp only [neg_neg, Int.toNat_natCast, Nat.pow_eq] at h
    split at h
    · next hdivides =>
      cases h
      obtain ⟨size, rfl⟩ : 2 ^ k ∣ m := Nat.dvd_of_mod_eq_zero (by simpa using hdivides)
      rw [Nat.mul_div_cancel_left size (Nat.two_pow_pos k), zpow_neg, zpow_natCast]
      push_cast
      field_simp
    · cases h

/-- A whole number is displayed by the digits of its size. -/
theorem displayed_whole {size : Nat} (hv : v.toModel.unpack = .finite s m e hm)
    (hsize : wholeSize? m e = some size) :
    displayed v = signText s ++ String.ofList (digitsOf size) := by
  have hpos : 0 < size := by
    have hvalue := wholeSize?_eq_some hsize
    have hpositive : (0 : ℚ) < size := by
      rw [hvalue]
      positivity
    exact_mod_cast hpositive
  rw [displayed, toInt?, hv]
  simp only [hsize, Option.map_some]
  cases s with
  | positive =>
    show writtenInt (size : Int) = _
    rw [writtenInt, if_neg (by omega)]
    rfl
  | negative =>
    show writtenInt (-(size : Int)) = _
    rw [writtenInt, if_pos (by omega), Int.natAbs_neg]
    rfl

theorem calculate_displayed_whole {size : Nat} (hv : v.toModel.unpack = .finite s m e hm)
    (hsafe : inSafeRange v = true) (hsize : wholeSize? m e = some size) :
    calculate (displayed v) = .ok v := by
  obtain ⟨x, hx, -, -⟩ := exists_magnitude hv
  have hvalue : (Lexeme.ofNat size).exactValue = unpackedValue x.toModel.unpack := by
    rw [hx, Lexeme.exactValue_ofNat]
    exact wholeSize?_eq_some hsize
  have hd : (Lexeme.ofNat size).value = x := by
    apply Lexeme.value_eq
    · rw [hvalue]
      exact (isDouble_unpack (isFinite_of_unpack hx)).roundsTo
    · rw [hvalue]
      exact (valueOf_pos hx).ne'
  rw [displayed_whole hv hsize, ← Lexeme.chars_ofNat]
  exact calculate_signed hv hx hsafe hd

/-! ### Fractions -/

theorem displayed_fraction (hv : v.toModel.unpack = .finite s m e hm)
    (hsize : wholeSize? m e = none) :
    displayed v = signText s ++ String.ofList (shortest m e hm).write := by
  rw [displayed, toInt?, hv]
  simp only [hsize, Option.map_none]
  rw [written, hv]

theorem calculate_displayed_fraction (hv : v.toModel.unpack = .finite s m e hm)
    (hsafe : inSafeRange v = true) (hsize : wholeSize? m e = none)
    (hlarge : valueOf tenThousandth ≤ |valueOf v|) : calculate (displayed v) = .ok v := by
  obtain ⟨x, hx, hrange, hvalue⟩ := exists_magnitude hv
  have hpos := exactValue_shortest_pos hx
  have hpower : positionalFrom ≤ (shortest m e hm).power ∧
      (shortest m e hm).power < positionalBelow := by
    constructor
    · rw [← hvalue] at hlarge
      exact not_lt.mp fun hless => not_lt.mpr hlarge
        ((exactValue_shortest_lt_iff hx).mp ((Decimal.power_lt_iff hpos _).mp hless))
    · exact (Decimal.power_lt_iff hpos _).mpr (exactValue_shortest_lt hx (hrange.trans hsafe))
  obtain ⟨d, hchars, hexact⟩ := writePositional_eq Decimal.isDigit_digits
    (Decimal.digits_ne_nil hpos) ((shortest m e hm).power + 1)
  rw [← Decimal.exactValue_eq] at hexact
  have hd : d.value = x := by
    apply Lexeme.value_eq
    · rw [hexact]
      exact roundsTo_shortest hx
    · rw [hexact]
      exact hpos.ne'
  rw [displayed_fraction hv hsize, Decimal.write_eq, if_pos hpower, hchars]
  exact calculate_signed hv hx hsafe hd

/-- A text with a power of ten at its end: a numeral, perhaps with a sign, the mark of an
    exponent, a minus sign, and two digits at least. -/
def InExponentForm (text : String) : Prop :=
  ∃ (l : Literal) (places : List Char), text.toList = l.chars ++ 'e' :: '-' :: places ∧
    2 ≤ places.length ∧ ∀ c ∈ places, c.isDigit = true

/-- The mark of an exponent is no character of an expression. -/
theorem InExponentForm.calculate_eq {text : String} (h : InExponentForm text) :
    calculate text = fail .invalidExpression := by
  obtain ⟨l, places, htext, -, -⟩ := h
  have hforeign : HoldsForeign text.toList :=
    ⟨l.chars, 'e', '-' :: places, htext, by decide, fun hline => absurd hline (by decide)⟩
  have hshown : allBlank text = false := by
    rw [allBlank, List.all_eq_false]
    refine ⟨'e', ?_, by decide⟩
    rw [htext]
    simp
  exact calculate_of_checkAlphabet (checkAlphabet_of_holdsForeign hshown hforeign)

theorem inExponentForm_displayed (hv : v.toModel.unpack = .finite s m e hm)
    (hsize : wholeSize? m e = none) (hsmall : |valueOf v| < valueOf tenThousandth) :
    InExponentForm (displayed v) := by
  obtain ⟨x, hx, -, hvalue⟩ := exists_magnitude hv
  have hpos := exactValue_shortest_pos hx
  rw [← hvalue] at hsmall
  have hpower : (shortest m e hm).power < positionalFrom :=
    (Decimal.power_lt_iff hpos _).mpr ((exactValue_shortest_lt_iff hx).mpr hsmall)
  obtain ⟨d, places, hwritten, hlength, hplaces⟩ := writeScientific_eq Decimal.isDigit_digits
    (Decimal.digits_ne_nil hpos) (lt_trans hpower (by decide))
  refine ⟨.signed s d, places, ?_, hlength, hplaces⟩
  have htext : displayed v = (Literal.signed s d).text ++ String.ofList ('e' :: '-' :: places) := by
    rw [displayed_fraction hv hsize, Decimal.write_eq, if_neg (by omega), hwritten,
      Literal.text_signed, String.append_assoc, ← String.ofList_append]
  rw [htext, String.toList_append, String.toList_ofList, Literal.text, String.toList_ofList]

/-- A whole number other than zero is far above 10^-4. -/
theorem tenThousandth_le_of_whole {size : Nat} (hv : v.toModel.unpack = .finite s m e hm)
    (hsize : wholeSize? m e = some size) : valueOf tenThousandth ≤ |valueOf v| := by
  obtain ⟨x, hx, -, hvalue⟩ := exists_magnitude hv
  have hpos := valueOf_pos hx
  have hsizeValue : valueOf x = size := by
    rw [valueOf, hx, wholeSize?_eq_some hsize]
    rfl
  have hone : 1 ≤ size := by
    rw [hsizeValue] at hpos
    exact_mod_cast hpos
  rw [← hvalue, hsizeValue, valueOf_tenThousandth]
  calc (7378697629483821 : ℚ) * 2 ^ (-66 : ℤ) ≤ 1 := by norm_num
    _ ≤ size := by exact_mod_cast hone

/-! ### Every result -/

/-- **What is displayed of a result can be typed back in** if the result is zero or from
    10^-4 on in magnitude: it is an expression with an equal value, the very same double
    if it is not zero.  Of any other result an exponent is displayed, and that is no
    expression. -/
theorem displayed_reads_back {text : String} (h : calculate text = .ok v) :
    (valueOf v = 0 ∨ valueOf tenThousandth ≤ |valueOf v| →
      ∃ y, calculate (displayed v) = .ok y ∧ (y == v) = true ∧ (valueOf v ≠ 0 → y = v)) ∧
    (0 < |valueOf v| → |valueOf v| < valueOf tenThousandth →
      InExponentForm (displayed v) ∧ calculate (displayed v) = fail .invalidExpression) := by
  have hsafe := inSafeRange_of_calculate h
  have hfinite := isFinite_of_inSafeRange hsafe
  have hself : (v == v) = true := beq_self_of_isFinite hfinite
  have hdouble := isDouble_unpack hfinite
  generalize hv : v.toModel.unpack = u at hdouble
  cases hdouble with
  | zero s =>
    have hvalue : valueOf v = 0 := by
      rw [valueOf, hv, unpackedValue_zero]
    obtain ⟨y, hy, hequal⟩ := calculate_displayed_zero hv
    refine ⟨fun _ => ⟨y, hy, hequal, fun hne => absurd hvalue hne⟩, fun hpos => ?_⟩
    rw [hvalue, abs_zero] at hpos
    exact absurd hpos (lt_irrefl 0)
  | @finite s m e hcanonical hm =>
    have hne : valueOf v ≠ 0 := by
      obtain ⟨x, hx, -, hvalue⟩ := exists_magnitude hv
      rw [← abs_pos, ← hvalue]
      exact valueOf_pos hx
    cases hsize : wholeSize? m e with
    | some size =>
      have hlarge := tenThousandth_le_of_whole hv hsize
      refine ⟨fun _ => ⟨v, calculate_displayed_whole hv hsafe hsize, hself, fun _ => rfl⟩, ?_⟩
      intro _ hsmall
      exact absurd hsmall (not_lt.mpr hlarge)
    | none =>
      constructor
      · intro hlarge
        have hvalue := calculate_displayed_fraction hv hsafe hsize (hlarge.resolve_left hne)
        exact ⟨v, hvalue, hself, fun _ => rfl⟩
      · intro _ hsmall
        have hform := inExponentForm_displayed hv hsize hsmall
        exact ⟨hform, hform.calculate_eq⟩

/-- A negative fraction reads back, and a fraction below 10^-4 does not. -/
theorem displayed_reads_back_fractions :
    (∃ y, calculate (displayed (-0.25)) = .ok y ∧ (y == -0.25) = true ∧ y = -0.25) ∧
      InExponentForm (displayed 1.52587890625e-05) ∧
      calculate (displayed 1.52587890625e-05) = fail .invalidExpression := by
  have hquarter : |valueOf (-0.25)| = 1 / 4 := by
    have hunpack : (-0.25 : Float).toModel.unpack =
        .finite .negative 4503599627370496 (-54) (by decide) := rfl
    rw [valueOf, hunpack, abs_unpackedValue]
    norm_num
  have hsmall : |valueOf 1.52587890625e-05| = 1 / 65536 := by
    have hunpack : (1.52587890625e-05 : Float).toModel.unpack =
        .finite .positive 4503599627370496 (-68) (by decide) := rfl
    rw [valueOf, hunpack, abs_unpackedValue]
    norm_num
  have hresult : calculate "1/-4" = .ok (-0.25) := by decide +kernel
  have hresult' : calculate "1/65536" = .ok 1.52587890625e-05 := by decide +kernel
  obtain ⟨hreads, -⟩ := displayed_reads_back hresult
  obtain ⟨-, hfails⟩ := displayed_reads_back hresult'
  constructor
  · obtain ⟨y, hy, hequal, hsame⟩ := hreads (Or.inr (by
      rw [hquarter, valueOf_tenThousandth]
      norm_num))
    refine ⟨y, hy, hequal, hsame ?_⟩
    rw [← abs_pos, hquarter]
    norm_num
  · apply hfails
    · rw [hsmall]
      norm_num
    · rw [hsmall, valueOf_tenThousandth]
      norm_num

end Results

end Reckoner
