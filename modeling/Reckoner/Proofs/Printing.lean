/-
  Reckoner/Proofs/Printing.lean
  =============================
  **Printed numbers.**  A double is printed as a decimal that is read back as the same
  double: the search for a short one stops at one that does (`toFloat_shortest`), and if
  there were no shorter one, the exact expansion would.

  How a decimal is printed is told by the power of ten of its first digit, which is told by
  its value (`Decimal.power_lt_iff`).  In the positional form a decimal is a numeral of the
  calculator with the same exact value (`writePositional_eq`); zeros at the end of its
  digits that are left out, and zeros that fill places, make no difference to that.  In the
  other form a decimal less than one is a numeral, the mark of an exponent, a minus sign
  and a row of two digits at least (`writeScientific_eq`).
-/
import Reckoner.Number.Written
import Reckoner.Proofs.LiteralRange
import Reckoner.Proofs.RoundingOrder

namespace Reckoner.Number

open Float.Model Lexeme

/-! ### Reading back -/

theorem exponent_exactDecimal (m : Nat) (e : Int) : (exactDecimal m e).exponent ≤ 0 := by
  rw [exactDecimal]
  split
  · exact le_rfl
  · next hneg => exact (not_le.mp hneg).le

theorem exactValue_exactDecimal (m : Nat) (e : Int) :
    (exactDecimal m e).exactValue = m * 2 ^ e := by
  rw [exactDecimal]
  split
  · next hnonneg =>
    obtain ⟨k, rfl⟩ := Int.eq_ofNat_of_zero_le hnonneg
    rw [Decimal.exactValue]
    simp
  · next hneg =>
    obtain ⟨k, rfl⟩ : ∃ k : Nat, e = -(k : Int) := ⟨(-e).toNat, by omega⟩
    have hten : (10 : ℚ) ^ k = 5 ^ k * 2 ^ k := by
      rw [← mul_pow]
      norm_num
    rw [Decimal.exactValue, zpow_neg, zpow_neg, zpow_natCast, zpow_natCast, hten]
    simp only [neg_neg, Int.toNat_natCast, Nat.pow_eq]
    push_cast
    field_simp

/-- What the search comes upon reads back, if the decimal that it starts from does. -/
theorem beq_searchShortest {x : Float} {exact : Decimal} (h : (exact.toFloat == x) = true) :
    ((searchShortest x exact).toFloat == x) = true := by
  unfold searchShortest
  simp only
  generalize hfound : List.findSome? _ _ = found
  cases found with
  | none => exact h
  | some d =>
    obtain ⟨kept, -, hkept⟩ := List.exists_of_findSome?_eq_some hfound
    have hreads := List.find?_some hkept
    exact hreads

section Shortest

variable {x : Float} {m : Nat} {e : Int} {hm : 0 < m}
  (hx : x.toModel.unpack = .finite .positive m e hm)

include hx

theorem valueOf_pos : 0 < valueOf x := by
  rw [valueOf, hx]
  show (0 : ℚ) < m * 2 ^ e
  positivity

/-- **The shortest decimal of a double is read back as that double.** -/
theorem toFloat_shortest : (shortest m e hm).toFloat = x := by
  have hself : .ofModel (Float.Model.pack (.finite .positive m e hm)) = x := by
    rw [← hx, ofModel_pack_unpack]
  have hfinite := isFinite_of_unpack hx
  have hvalue : (exactDecimal m e).exactValue = valueOf x := by
    rw [exactValue_exactDecimal, valueOf, hx]
    rfl
  have hexact : (exactDecimal m e).toFloat = x := by
    apply Decimal.toFloat_eq ((exponent_exactDecimal m e).trans (by norm_num))
    · rw [hvalue]
      exact (isDouble_unpack hfinite).roundsTo
    · rw [hvalue]
      exact (valueOf_pos hx).ne'
  have hbeq : ((shortest m e hm).toFloat == x) = true := by
    rw [shortest, hself]
    apply beq_searchShortest
    rw [hexact]
    exact beq_self_of_isFinite hfinite
  rcases eq_or_isZero_of_beq hbeq with heq | hzero
  · exact heq
  · rw [isZero, hx] at hzero
    cases hzero

theorem roundsTo_shortest : RoundsTo (shortest m e hm).exactValue x.toModel.unpack := by
  have hreads := toFloat_shortest hx
  have hfinite : (shortest m e hm).toFloat.isFinite = true := by
    rw [hreads]
    exact isFinite_of_unpack hx
  have hrounds := Decimal.roundsTo hfinite
  rw [hreads] at hrounds
  exact hrounds

theorem exactValue_shortest_pos : 0 < (shortest m e hm).exactValue := by
  have hne := (roundsTo_shortest hx).ne_zero (valueOf_pos hx).ne'
  exact lt_of_le_of_ne (Decimal.exactValue_nonneg _) hne.symm

/-- The shortest decimal of a double in the safe range is far below 10^16. -/
theorem exactValue_shortest_lt (hsafe : inSafeRange x = true) :
    (shortest m e hm).exactValue < 10 ^ (16 : ℤ) := by
  have hmodel : x.toModel = Float.Model.pack x.toModel.unpack :=
    congrArg Float.toModel (ofModel_pack_unpack x).symm
  have hless := ((roundsTo_shortest hx).inSafeRange_iff hmodel).mp hsafe
  rw [abs_of_pos (exactValue_shortest_pos hx)] at hless
  exact hless.trans (by norm_num)

end Shortest

/-! ### Digits -/

theorem size_digitsOf (n : Nat) : size (digitsOf n) = n := by
  have hten : Nat.ofDigitChars 10 (digitsOf n) 0 = n := Nat.ofDigitChars_ten_toDigits
  rw [Nat.ofDigitChars_eq_foldl] at hten
  rw [size, Text.ofDigits, List.foldl_map]
  exact hten

theorem isDigit_digitsOf {n : Nat} {c : Char} (h : c ∈ digitsOf n) : c.isDigit = true :=
  Nat.isDigit_of_mem_toDigits (by decide) (by decide) h

theorem digitsOf_ne_nil (n : Nat) : digitsOf n ≠ [] := Nat.toDigits_ne_nil

/-- A number lies between two powers of ten that the length of its digits tells. -/
theorem digitsOf_bounds {n length : Nat} (hpos : 0 < n)
    (hlength : (digitsOf n).length = length + 1) : 10 ^ length ≤ n ∧ n < 10 ^ (length + 1) := by
  have hle : ∀ {k : Nat}, 0 < k → ((digitsOf n).length ≤ k ↔ n < 10 ^ k) :=
    fun hk => Nat.length_toDigits_le_iff (by decide) hk
  constructor
  · rcases Nat.eq_zero_or_pos length with rfl | hlong
    · exact hpos
    · rw [← not_lt, ← hle hlong]
      omega
  · exact (hle (Nat.succ_pos length)).mp hlength.le

theorem length_zeros (n : Nat) : (zeros n).length = n := List.length_replicate

theorem isDigit_zeros {n : Nat} {c : Char} (h : c ∈ zeros n) : c.isDigit = true := by
  obtain rfl : c = '0' := List.eq_of_mem_replicate h
  rfl

theorem size_zeros (n : Nat) : size (zeros n) = 0 := by
  induction n with
  | zero => rfl
  | succ n ih =>
    have hsplit : zeros (n + 1) = zeros n ++ ['0'] := List.replicate_succ'
    rw [hsplit, size_append, ih]
    rfl

/-! ### The digits and the power of a decimal -/

namespace Decimal

/-- The digits of a decimal without the zeros at their end. -/
def digits (d : Decimal) : List Char :=
  ((digitsOf d.coefficient).reverse.dropWhile (· == '0')).reverse

/-- The power of ten of the first digit. -/
def power (d : Decimal) : Int := d.exponent + (digitsOf d.coefficient).length - 1

theorem write_eq (d : Decimal) :
    d.write = if positionalFrom ≤ d.power ∧ d.power < positionalBelow then
      writePositional d.digits (d.power + 1) else writeScientific d.digits d.power := by
  simp only [write, Bool.and_eq_true, decide_eq_true_eq]
  rfl

theorem digits_append_zeros (d : Decimal) :
    ∃ dropped, digitsOf d.coefficient = d.digits ++ zeros dropped := by
  obtain ⟨last, hlast⟩ :
      ∃ last, (digitsOf d.coefficient).reverse.takeWhile (· == '0') = last := ⟨_, rfl⟩
  have hzeros : last.reverse = zeros last.length := by
    rw [zeros, ← List.length_reverse]
    apply List.eq_replicate_of_mem
    intro c hc
    rw [List.mem_reverse, ← hlast] at hc
    have hzero := List.mem_takeWhile_imp hc
    exact beq_iff_eq.mp hzero
  refine ⟨last.length, ?_⟩
  rw [← hzeros, ← hlast, digits, ← List.reverse_append, List.takeWhile_append_dropWhile,
    List.reverse_reverse]

theorem isDigit_digits {d : Decimal} : ∀ c ∈ d.digits, c.isDigit = true := by
  intro c hc
  obtain ⟨dropped, hdigits⟩ := d.digits_append_zeros
  apply isDigit_digitsOf (n := d.coefficient)
  rw [hdigits]
  exact List.mem_append_left _ hc

/-- The value of a decimal is that of its digits with the point behind the first
    `power + 1` of them. -/
theorem exactValue_eq (d : Decimal) :
    d.exactValue = size d.digits * 10 ^ (d.power + 1 - d.digits.length) := by
  obtain ⟨dropped, hdigits⟩ := d.digits_append_zeros
  have hcoefficient : d.coefficient = size d.digits * 10 ^ dropped := by
    rw [← size_digitsOf d.coefficient, hdigits, size_append, size_zeros, length_zeros, Nat.add_zero]
  have hpower : d.power + 1 - d.digits.length = dropped + d.exponent := by
    rw [power, hdigits, List.length_append, length_zeros]
    push_cast
    ring
  rw [exactValue, hcoefficient, hpower, zpow_add₀ (by norm_num), zpow_natCast]
  push_cast
  ring

theorem digits_ne_nil {d : Decimal} (h : 0 < d.exactValue) : d.digits ≠ [] := by
  intro hnil
  rw [exactValue_eq, hnil] at h
  simp [size, Text.ofDigits] at h

theorem zpow_power_le {d : Decimal} (h : 0 < d.exactValue) :
    (10 : ℚ) ^ d.power ≤ d.exactValue ∧ d.exactValue < 10 ^ (d.power + 1) := by
  obtain ⟨length, hlength⟩ : ∃ length, (digitsOf d.coefficient).length = length + 1 :=
    ⟨_, (Nat.succ_pred_eq_of_pos (List.length_pos_iff.mpr (digitsOf_ne_nil _))).symm⟩
  have hpower : d.power = length + d.exponent := by
    rw [power, hlength]
    push_cast
    ring
  have hpos : 0 < d.coefficient := by
    rw [Nat.pos_iff_ne_zero]
    intro hzero
    rw [exactValue, hzero, Nat.cast_zero, zero_mul] at h
    exact lt_irrefl _ h
  obtain ⟨hlow, hhigh⟩ := digitsOf_bounds hpos hlength
  have hunit : (0 : ℚ) < 10 ^ d.exponent := by positivity
  constructor
  · rw [hpower, zpow_add₀ (by norm_num), zpow_natCast, exactValue]
    have hcast : (10 : ℚ) ^ length ≤ d.coefficient := by exact_mod_cast hlow
    gcongr
  · have hsucc : d.power + 1 = (length + 1 : Nat) + d.exponent := by
      rw [hpower]
      push_cast
      ring
    have hcast : (d.coefficient : ℚ) < 10 ^ (length + 1) := by exact_mod_cast hhigh
    rw [hsucc, zpow_add₀ (by norm_num), zpow_natCast, exactValue]
    gcongr

/-- **The power of a decimal is told by its value.** -/
theorem power_lt_iff {d : Decimal} (h : 0 < d.exactValue) (k : Int) :
    d.power < k ↔ d.exactValue < 10 ^ k := by
  obtain ⟨hlow, hhigh⟩ := zpow_power_le h
  constructor
  · intro hless
    calc d.exactValue < 10 ^ (d.power + 1) := hhigh
      _ ≤ 10 ^ k := zpow_le_zpow_right₀ (by norm_num) hless
  · intro hless
    exact (zpow_lt_zpow_iff_right₀ (by norm_num)).mp (lt_of_le_of_lt hlow hless)

end Decimal

/-! ### The two forms -/

section Forms

variable {digits : List Char}

/-- **Digits with a point among them are a numeral**, and its exact value is that of the
    digits with the point at its place. -/
theorem writePositional_eq (hdigits : ∀ c ∈ digits, c.isDigit = true) (hne : digits ≠ [])
    (point : Int) :
    ∃ l : Lexeme, writePositional digits point = l.chars ∧
      l.exactValue = size digits * 10 ^ (point - digits.length) := by
  have hten : (10 : ℚ) ≠ 0 := by norm_num
  rw [writePositional]
  split
  · next hpoint =>
    -- zeros between the point and the digits
    obtain ⟨k, rfl⟩ : ∃ k : Nat, point = -(k : Int) := ⟨(-point).toNat, by omega⟩
    refine ⟨⟨['0'], true, zeros k ++ digits, by simp [Char.isDigit], ?_, by simp [hne]⟩, ?_, ?_⟩
    · intro c hc
      rcases List.mem_append.mp hc with hzero | hdigit
      · exact isDigit_zeros hzero
      · exact hdigits c hdigit
    · rw [neg_neg, Int.toNat_natCast]
      rfl
    · have hexponent : -(k : Int) - digits.length = -((k + digits.length : Nat) : Int) := by
        push_cast
        ring
      show (size ['0'] : ℚ) + size (zeros k ++ digits) / 10 ^ (zeros k ++ digits).length = _
      rw [size_append, size_zeros, List.length_append, length_zeros, hexponent, zpow_neg,
        zpow_natCast, show size ['0'] = 0 from rfl]
      push_cast
      ring
  · next hpoint =>
    obtain ⟨k, rfl⟩ : ∃ k : Nat, point = k := ⟨point.toNat, by omega⟩
    simp only [Int.toNat_natCast]
    split
    · next hshort =>
      -- zeros between the digits and the point, and one behind it
      refine ⟨⟨digits ++ zeros (k - digits.length), true, ['0'], ?_, by simp [Char.isDigit],
        by simp⟩, ?_, ?_⟩
      · intro c hc
        rcases List.mem_append.mp hc with hdigit | hzero
        · exact hdigits c hdigit
        · exact isDigit_zeros hzero
      · rfl
      · have hexponent : (k : Int) - digits.length = (k - digits.length : Nat) := by omega
        show (size (digits ++ zeros (k - digits.length)) : ℚ) + size ['0'] / 10 ^ 1 = _
        rw [size_append, size_zeros, length_zeros, hexponent, zpow_natCast,
          show size ['0'] = 0 from rfl]
        push_cast
        ring
    · next hlong =>
      -- digits on either side of the point
      refine ⟨⟨digits.take k, true, digits.drop k, ?_, ?_, ?_⟩, rfl, ?_⟩
      · exact fun c hc => hdigits c (List.mem_of_mem_take hc)
      · exact fun c hc => hdigits c (List.mem_of_mem_drop hc)
      · exact List.drop_eq_nil_iff.not.mpr hlong
      · have hexponent : (k : Int) - digits.length = -((digits.length - k : Nat) : Int) := by omega
        have hsize := size_append (digits.take k) (digits.drop k)
        rw [List.take_append_drop] at hsize
        show (size (digits.take k) : ℚ) + size (digits.drop k) / 10 ^ (digits.drop k).length = _
        rw [hsize, List.length_drop, hexponent, zpow_neg, zpow_natCast]
        push_cast
        field_simp

/-- **A negative power of ten is written behind the mark of an exponent.** -/
theorem writeScientific_eq (hdigits : ∀ c ∈ digits, c.isDigit = true) (hne : digits ≠ [])
    {power : Int} (hneg : power < 0) :
    ∃ (l : Lexeme) (places : List Char),
      writeScientific digits power = l.chars ++ 'e' :: '-' :: places ∧
      2 ≤ places.length ∧ ∀ c ∈ places, c.isDigit = true := by
  obtain ⟨places, hplaces⟩ : ∃ places, zeros (2 - (digitsOf power.natAbs).length) ++
      digitsOf power.natAbs = places := ⟨_, rfl⟩
  have hlength : 2 ≤ places.length := by
    rw [← hplaces, List.length_append, length_zeros]
    omega
  have hall : ∀ c ∈ places, c.isDigit = true := by
    intro c hc
    rw [← hplaces] at hc
    rcases List.mem_append.mp hc with hzero | hdigit
    · exact isDigit_zeros hzero
    · exact isDigit_digitsOf hdigit
  have hfirst := hdigits (digits.head hne) (List.head_mem hne)
  rcases digits with _ | ⟨c, _ | ⟨c', cs⟩⟩
  · exact absurd rfl hne
  · refine ⟨.digit false c hfirst, places, ?_, hlength, hall⟩
    rw [writeScientific, if_pos hneg, hplaces]
    rfl
  · refine ⟨⟨[c], true, c' :: cs, by simpa using hfirst, ?_, List.cons_ne_nil c' cs⟩, places, ?_,
      hlength, hall⟩
    · exact fun b hb => hdigits b (List.mem_cons_of_mem c hb)
    · simp only [writeScientific, if_pos hneg, hplaces]
      rfl

end Forms

end Reckoner.Number
